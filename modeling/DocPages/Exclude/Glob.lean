import DocPages.Text.Utf8

/-!
# Globs

A glob is a row of parts, each of which stands for some runs of bytes. `Glob.parse` reads one, and
`Glob.accepts` decides whether a path as a whole is among the runs it stands for: `rests` gives what
may be left of a path once the first parts are taken off, so a path is accepted when nothing may be
left of it.

`?` and `*` do not pass a slash. `**` as a name of its own stands for any number of names, and
elsewhere for the same as `*`. A class in brackets that is never closed is no class, and neither is
any later one.
-/

namespace DocPages

namespace Glob

/-! ### Parts -/

/-- A part of a glob. -/
inductive Part where
  /-- Exactly these bytes. -/
  | bytes (bs : Bytes)
  /-- One byte, but no slash. -/
  | anyByte
  /-- Any bytes, but no slash. -/
  | anyBytes
  /-- One byte that lies in one of the ranges, or in none of them. -/
  | oneOf (negated : Bool) (ranges : List (UInt8 × UInt8))
  /-- Any number of names at the start of a path. -/
  | leadingNames
  /-- Any number of names between two others. -/
  | middleNames
  /-- A slash and everything after it. -/
  | trailingNames
  /-- One of several rows of parts. Without any, nothing. -/
  | branches (rows : List (List Part))

/-- The slash between names. -/
def slash : UInt8 := 0x2F

/-- All ends of a run of bytes, the run itself included. -/
def ends : Bytes → List Bytes
  | [] => [[]]
  | b :: bs => (b :: bs) :: ends bs

/-- What may be left of a run after bytes other than slashes. -/
def afterAny : Bytes → List Bytes
  | [] => [[]]
  | b :: bs => (b :: bs) :: if b = slash then [] else afterAny bs

/-- What may be left of a run after a slash. -/
def afterSlashes : Bytes → List Bytes
  | [] => []
  | b :: bs => if b = slash then bs :: afterSlashes bs else afterSlashes bs

/-- What is left of a run after a slash at its start. -/
def afterSlash : Bytes → List Bytes
  | b :: bs => if b = slash then [bs] else []
  | [] => []

/-- Whether a byte lies in one of the ranges. -/
def isInRanges (ranges : List (UInt8 × UInt8)) (b : UInt8) : Bool :=
  ranges.any fun r => decide (r.1 ≤ b) && decide (b ≤ r.2)

mutual

/-- What may be left of a run after one part. -/
def Part.rests : Part → Bytes → List Bytes
  | .bytes bs, s => (bs.isPrefixOf? s).toList
  | .anyByte, s => if s.head? = some slash then [] else (s.tail?).toList
  | .anyBytes, s => afterAny s
  | .oneOf negated ranges, s =>
    match s with
    | b :: rest => if isInRanges ranges b = negated then [] else [rest]
    | [] => []
  | .leadingNames, s => s :: afterSlashes s
  | .middleNames, s => (afterSlash s).flatMap fun rest => rest :: afterSlashes rest
  | .trailingNames, s => (afterSlash s).flatMap ends
  | .branches rows, s => if rows.isEmpty then [s] else rowsRests rows s

/-- What may be left of a run after a row of parts. -/
def rests : List Part → Bytes → List Bytes
  | [], s => [s]
  | p :: ps, s => ((p.rests s).eraseDups.flatMap (rests ps)).eraseDups

/-- What may be left of a run after one of several rows of parts. -/
def rowsRests : List (List Part) → Bytes → List Bytes
  | [], _ => []
  | row :: rows, s => rests row s ++ rowsRests rows s

end

/-- Whether a part stands for nothing but the empty run, for want of any branch. -/
def Part.isVoid : Part → Bool
  | .branches rows => rows.isEmpty
  | _ => false

/-- Whether a path is one of those that a glob stands for. Any number of names alone stands for all.
-/
def accepts : List Part → Bytes → Bool
  | [.leadingNames], _ => true
  | parts, path => (rests parts path).contains []

/-! ### Classes in brackets -/

/-- Why a text is no glob. -/
inductive Error where
  /-- A range ends before it starts. -/
  | invalidRange (first last : Char)
  /-- A brace is never closed. -/
  | unclosedBranches
  /-- A brace is closed that was never opened. -/
  | unopenedBranches
  /-- The text ends in a backslash. -/
  | danglingEscape
  deriving DecidableEq, Repr

/-- What is wrong, in words. -/
def Error.message : Error → Text
  | invalidRange first last =>
    "invalid range; '".toList ++ first :: "' > '".toList ++ [last, '\'']
  | unclosedBranches =>
    "unclosed alternate group; missing '\x7d' (maybe escape '\x7b' with '[\x7b]'?)".toList
  | unopenedBranches =>
    "unopened alternate group; missing '\x7b' (maybe escape '\x7d' with '[\x7d]'?)".toList
  | danglingEscape => "dangling '\\'".toList

/-- The ranges of a class with the last one stretched to `c`. -/
def stretch (ranges : List (Char × Char)) (c : Char) : Except Error (List (Char × Char)) :=
  match ranges.getLast? with
  | none => .ok [(c, c)]
  | some r => if c < r.1 then .error (.invalidRange r.1 c) else .ok (ranges.dropLast ++ [(r.1, c)])

/-- Reads a class up to its closing bracket, given the ranges read so far, whether this is its first
character, and whether a hyphen was read that opens a range. There is none if it is never closed. -/
def classRanges (ranges : List (Char × Char)) (isFirst isOpen : Bool) :
    Text → Except Error (Option (List (Char × Char) × Text))
  | [] => .ok none
  | c :: t =>
    if c = ']' && !isFirst then
      .ok (some (if isOpen then ranges ++ [('-', '-')] else ranges, t))
    else if c = '-' && !isFirst && !isOpen then classRanges ranges false true t
    else if isOpen then do classRanges (← stretch ranges c) false false t
    else classRanges (ranges ++ [(c, c)]) false false t

/-- The byte ranges of a range of characters. From the bytes of its first and last character, only
the two that meet bound a range; the others stand for themselves. -/
def byteRanges (r : Char × Char) : List (UInt8 × UInt8) :=
  let first := String.utf8EncodeChar r.1
  let last := String.utf8EncodeChar r.2
  if r.1 = r.2 then first.map fun b => (b, b)
  else
    first.dropLast.map (fun b => (b, b)) ++ [(first.getLast?.getD 0, last.headD 0)] ++
      last.tail.map fun b => (b, b)

/-- Reads a class after its opening bracket. -/
def readClass (t : Text) : Except Error (Option (Part × Text)) := do
  let negated := t.head? == some '!' || t.head? == some '^'
  let found ← classRanges [] true false (if negated then t.drop 1 else t)
  return found.map fun (ranges, rest) => (.oneOf negated (ranges.flatMap byteRanges), rest)

/-! ### Reading a glob -/

/-- A brace that is open: the parts before it, and its branches that are complete. -/
structure OpenBrace where
  before : List Part
  complete : List (List Part)

/-- How far a glob has been read. -/
structure Progress where
  /-- The open braces, innermost first. -/
  braces : List OpenBrace
  /-- The parts of the row at hand. -/
  row : List Part
  /-- The character read last. -/
  previous : Option Char
  /-- Whether a class was found that is never closed. -/
  noClasses : Bool

namespace Progress

/-- Nothing has been read. -/
def start : Progress := ⟨[], [], none, false⟩

/-- Adds parts to the row at hand, after reading the character `c`. -/
def add (p : Progress) (parts : List Part) (c : Char) : Progress :=
  { p with row := p.row ++ parts, previous := some c }

/-- Opens a brace. -/
def openBrace (p : Progress) : Progress :=
  { p with braces := ⟨p.row, []⟩ :: p.braces, row := [], previous := some '\x7b' }

/-- Starts the next branch of the innermost brace. Outside all braces a comma stands for itself. -/
def comma (p : Progress) : Progress :=
  match p.braces with
  | [] => p.add [.bytes [0x2C]] ','
  | b :: bs =>
    { p with
      braces := { b with complete := b.complete ++ [p.row] } :: bs
      row := []
      previous := some ',' }

/-- Closes the innermost brace. Branches without parts do not count. -/
def closeBrace (p : Progress) : Except Error Progress :=
  match p.braces with
  | [] => .error .unopenedBranches
  | b :: bs =>
    let rows := (b.complete ++ [p.row]).filter fun row => !row.all Part.isVoid
    .ok { p with braces := bs, row := b.before ++ [.branches rows], previous := some '\x7d' }

/-- Whether two stars may stand for names, by what stands before them. -/
def mayStartName (p : Progress) : Bool :=
  p.previous == some '/' ||
    (!p.braces.isEmpty && (p.previous == some ',' || p.previous == some '\x7b'))

/-- Puts names in the place of the slash before two stars. -/
def addNames (p : Progress) (part : Part) (c : Char) : Progress :=
  let kept := match p.row.getLast? with
    | some .leadingNames => .leadingNames
    | some .trailingNames => .trailingNames
    | _ => part
  { p with row := p.row.dropLast ++ [kept], previous := some c }

/-- Takes in two stars, in front of the text `t`, and what is left of the text. -/
def twoStars (p : Progress) (t : Text) : Progress × Text :=
  let plain := (p.add [.anyBytes, .anyBytes] '*', t)
  if p.row.isEmpty then
    match t with
    | [] => (p.add [.leadingNames] '*', [])
    | '/' :: rest => (p.add [.leadingNames] '/', rest)
    | _ => plain
  else if p.mayStartName then
    match t with
    | [] => (p.addNames .trailingNames '*', [])
    | '/' :: rest => (p.addNames .middleNames '/', rest)
    | c :: _ =>
      if !p.braces.isEmpty && (c == ',' || c == '\x7d') then (p.addNames .trailingNames '*', t)
      else plain
  else plain

/-- Takes in the character `c` in front of the text `t`, and what is left of the text. -/
def step (p : Progress) (c : Char) (t : Text) : Except Error (Progress × Text) :=
  match c, t with
  | '?', t => .ok (p.add [.anyByte] '?', t)
  | '*', '*' :: t => .ok (p.twoStars t)
  | '*', t => .ok (p.add [.anyBytes] '*', t)
  | '[', t =>
    if p.noClasses then .ok (p.add [.bytes [0x5B]] '[', t)
    else do
      match ← readClass t with
      | some (part, rest) => return (p.add [part] ']', rest)
      | none => return ({ p.add [.bytes [0x5B]] '[' with noClasses := true }, t)
  | '\x7b', t => .ok (p.openBrace, t)
  | '\x7d', t => return (← p.closeBrace, t)
  | ',', t => .ok (p.comma, t)
  | '\\', [] => .error .danglingEscape
  | '\\', d :: t => .ok (p.add [.bytes (String.utf8EncodeChar d)] d, t)
  | c, t => .ok (p.add [.bytes (String.utf8EncodeChar c)] c, t)

end Progress

/-- Reads the rest of a glob. -/
def parseFrom (p : Progress) : Text → Except Error (List Part)
  | [] => if p.braces.isEmpty then .ok p.row else .error .unclosedBranches
  | c :: t => do
    let (p, rest) ← p.step c t
    if rest.length ≤ t.length then parseFrom p rest else return p.row
termination_by t => t.length
decreasing_by simp; omega

/-- Reads a glob. -/
def parse (t : Text) : Except Error (List Part) := parseFrom .start t

end Glob

end DocPages
