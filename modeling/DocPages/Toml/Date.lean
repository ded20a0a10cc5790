import DocPages.Toml.Number

/-!
# TOML dates

Recognises the words that stand for a day, a time of day, or both (`isDate`). Days must be in the
calendar; the seconds of a time may be missing, and may be 60.
-/

namespace DocPages.Toml

/-- The number that a text of two digits spells. -/
def twoDigits? (t : Text) : Option Nat :=
  if t.length = 2 ∧ t.all Char.isDigit then some (spelled 10 t) else none

/-- The days of a month. -/
def daysOf (year month : Nat) : Nat :=
  if month = 2 then
    if year % 4 = 0 ∧ (year % 100 ≠ 0 ∨ year % 400 = 0) then 29 else 28
  else if month ∈ [4, 6, 9, 11] then 30
  else 31

/-- Whether a text is a day: year, month and day with hyphens between them. -/
def isDay (t : Text) : Bool :=
  match t.splitOn '-' with
  | [year, month, day] =>
    match twoDigits? month, twoDigits? day with
    | some m, some d =>
      year.length = 4 && year.all Char.isDigit && 1 ≤ m && m ≤ 12 && 1 ≤ d &&
        d ≤ daysOf (spelled 10 year) m
    | _, _ => false
  | _ => false

/-- Whether a text is the seconds of a time, with or without a fraction. -/
def isSeconds (t : Text) : Bool :=
  (twoDigits? (t.take 2)).any (· ≤ 60) &&
    match t.drop 2 with
    | [] => true
    | '.' :: fraction => !fraction.isEmpty && fraction.all Char.isDigit
    | _ => false

/-- Whether a text is a time of day. The seconds may be missing. -/
def isTime (t : Text) : Bool :=
  match t.splitOn ':' with
  | hour :: minute :: seconds =>
    (twoDigits? hour).any (· ≤ 23) && (twoDigits? minute).any (· ≤ 59) &&
      match seconds with
      | [] => true
      | [second] => isSeconds second
      | _ => false
  | _ => false

/-- Whether a text is the difference of a local time from universal time. -/
def isZone (t : Text) : Bool :=
  match t with
  | ['Z'] | ['z'] => true
  | c :: t =>
    (c == '+' || c == '-') &&
      match t.splitOn ':' with
      | [hour, minute] => (twoDigits? hour).any (· ≤ 23) && (twoDigits? minute).any (· ≤ 59)
      | _ => false
  | [] => false

/-- The characters between a time and the difference from universal time after it. -/
def isZoneStart (c : Char) : Bool := c == 'Z' || c == 'z' || c == '+' || c == '-'

/-- Whether a text is a day, a time of day, or both. -/
def isDate (t : Text) : Bool :=
  let time := (t.drop 11).takeWhile fun c => !isZoneStart c
  let zone := (t.drop 11).dropWhile fun c => !isZoneStart c
  isTime t || isDay t ||
    (isDay (t.take 10) && (t[10]?).any (fun c => c == 'T' || c == 't' || c == ' ') && isTime time &&
      (zone.isEmpty || isZone zone))

end DocPages.Toml
