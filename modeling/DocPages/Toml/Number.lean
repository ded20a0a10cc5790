import DocPages.Toml.Value

/-!
# TOML numbers

Reads the words that stand for numbers (`number?`). Whether a word has the form of a number decides
whether a document can be read; whether the number can be held only matters where it is used. So a
word that has the form but no value that can be held, such as `0x` or `1e999`, is read as
`Value.unreadable`.
-/

namespace DocPages.Toml

/-! ### Digits -/

/-- The value of a digit of at most sixteen. -/
def digitValue (c : Char) : Nat :=
  if c.isDigit then c.toNat - '0'.toNat else c.toLower.toNat - 'a'.toNat + 10

/-- The hexadecimal digits. -/
def isHexDigit (c : Char) : Bool :=
  c.isDigit || ('a' ≤ c && c ≤ 'f') || ('A' ≤ c && c ≤ 'F')

/-- The digits of a base of at most sixteen. -/
def isDigitOf (base : Nat) (c : Char) : Bool := isHexDigit c && digitValue c < base

/-- The number that digits of a base spell. -/
def spelled (base : Nat) (digits : Text) : Nat :=
  digits.foldl (fun n c => n * base + digitValue c) 0

/-- The text without a sign at its start. -/
def unsigned : Text → Text
  | '-' :: t => t
  | '+' :: t => t
  | t => t

/-- The integer that digits of a base spell after a sign, if there is one. -/
def signedSpelled (base : Nat) (t : Text) : Int :=
  let n : Int := spelled base (unsigned t)
  if t.head? = some '-' then -n else n

/-- The text without low lines, which only part the digits of a number. -/
def withoutLowLines (t : Text) : Text := t.filter (· != '_')

/-- Whether each low line stands between two digits. -/
def lowLinesFit (isDigit : Char → Bool) (t : Text) : Bool :=
  let runs := t.splitOn '_'
  runs.tail.all (fun run => run.head?.any isDigit) &&
    runs.dropLast.all fun run => run.getLast?.any isDigit

/-! ### Integers -/

/-- Whether an integer fits the widest numbers that are read, of 128 bits with or without a sign. -/
def isInRange (n : Int) : Bool := -Int.pow 2 127 ≤ n && n < Int.pow 2 128

/-- The value of an integer. It cannot be held if it is out of range, or if it has no digits or
other characters among them. -/
def integer (base : Nat) (t : Text) : Value :=
  let plain := withoutLowLines t
  let n := signedSpelled base plain
  if unsigned plain ≠ [] ∧ (unsigned plain).all (isDigitOf base) ∧ isInRange n then .integer n
  else .unreadable t

/-- The letters after a zero that announce the digits of another base. -/
def bases : List (Char × Nat) := [('x', 16), ('o', 8), ('b', 2)]

/-- Whether a word has the form of a decimal integer, given what comes after its sign: digits
without a needless zero in front, and behind a low line any characters but spaces. -/
def isInteger (t : Text) : Bool :=
  let rest := t.dropWhile Char.isDigit
  (t == ['0'] || (!t.isEmpty && t.head? != some '0')) &&
    (rest.isEmpty || (rest.head? == some '_' && !rest.contains ' '))

/-! ### Floats -/

/-- The text after the digits at its start, of which there is at least one. -/
def afterDigits? (t : Text) : Option Text :=
  let isPart (c : Char) := c.isDigit || c == '_'
  if (t.takeWhile isPart).any Char.isDigit then some (t.dropWhile isPart) else none

/-- The text after the fraction at its start, if there is one. -/
def afterFraction? : Text → Option Text
  | '.' :: t => afterDigits? t
  | t => some t

/-- The text after the exponent at its start, if there is one. -/
def afterExponent? : Text → Option Text
  | 'e' :: t => afterDigits? (unsigned t)
  | 'E' :: t => afterDigits? (unsigned t)
  | t => some t

/-- Whether a number starts with a needless zero. -/
def hasNeedlessZero (t : Text) : Bool :=
  let whole := t.takeWhile fun c => c.isDigit || c == '_'
  whole.head? == some '0' && 1 < whole.countP Char.isDigit

/-- Whether a word has the form of a number with a fraction or an exponent, given what comes after
its sign. -/
def isFloat (t : Text) : Bool :=
  !hasNeedlessZero t &&
    (afterDigits? t).bind (fun t => (afterFraction? t).bind afterExponent?) == some []

/-- The least magnitude that is nearer to two to the power of 1024 than to any float of 64 bits. -/
def floatLimit : Nat := Nat.pow 2 1024 - Nat.pow 2 970

/-- Whether the number that decimal digits spell, times `10 ^ e`, reaches `floatLimit`, which has
309 places. -/
def reachesFloatLimit (digits : Text) (e : Int) : Bool :=
  let significant := digits.dropWhile (· == '0')
  let places : Int := significant.length + e
  !significant.isEmpty && (309 < places ||
    (places = 309 &&
      floatLimit * Nat.pow 10 (-e).toNat ≤ spelled 10 significant * Nat.pow 10 e.toNat))

/-- Whether a number with a fraction or an exponent is too large for a float of 64 bits. -/
def isTooLarge (t : Text) : Bool :=
  let plain := unsigned (withoutLowLines t)
  let mantissa := plain.takeWhile fun c => c.toLower != 'e'
  let exponent := plain.drop (mantissa.length + 1)
  let whole := mantissa.takeWhile (· != '.')
  let fraction := mantissa.drop (whole.length + 1)
  reachesFloatLimit (whole ++ fraction) (signedSpelled 10 exponent - fraction.length)

/-! ### Words -/

/-- Reads a decimal number. A point or an `e` behind the first digits makes it a float. -/
def decimal? (w : Text) : Option Value :=
  let t := unsigned w
  if t = "inf".toList ∨ t = "nan".toList then some (.float w)
  else if (t.dropWhile Char.isDigit).any (fun c => c == '.' || c.toLower == 'e') then
    if isFloat t && lowLinesFit Char.isDigit w then
      some (if isTooLarge w then .unreadable w else .float w)
    else none
  else if isInteger t && lowLinesFit isHexDigit w then some (integer 10 w)
  else none

/-- Reads a number. Only decimal numbers have signs. -/
def number? : Text → Option Value
  | '0' :: c :: t =>
    match bases.lookup c with
    | some base =>
      if t.all (fun c => isDigitOf base c || c == '_') && lowLinesFit isHexDigit t then
        some (integer base t)
      else none
    | none => decimal? ('0' :: c :: t)
  | w => decimal? w

end DocPages.Toml
