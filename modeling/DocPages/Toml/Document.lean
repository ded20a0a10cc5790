import DocPages.Toml.Scalar

/-!
# TOML documents

Reads a document into the entries of its root table (`Toml.parse`), in version 1.1 of the format:
tables in braces may span lines and end in a comma. A document is a row of lines, each blank, a
header or a key with its value, and each with a comment at its end if need be.
-/

namespace DocPages.Toml

/-- The result of a reading that is not always there. -/
def expect {α : Type} : Option α → Except Error α
  | some a => .ok a
  | none => .error .malformed

/-- How deep arrays and tables in braces may be nested, and how many parts a key may have. -/
def maxDepth : Nat := 80

/-! ### Blanks and comments -/

/-- Drops a comment at the start, up to the end of its line. -/
def skipComment : Text → Except Error Text
  | '#' :: t =>
    let rest := t.dropWhile isPlain
    if rest.isEmpty || (afterLineBreak? rest).isSome then .ok rest else .error .malformed
  | t => .ok t

/-- Drops blanks, line breaks and comments at the start. -/
def skipTrivia (t : Text) : Except Error Text := do
  let start := skipBlankLines t
  let rest ← skipComment start
  if rest.length < t.length then
    if rest.length < start.length then skipTrivia rest else return start
  else return start
termination_by t.length

/-! ### Keys -/

/-- The characters of a key without quotes. -/
def isKeyChar (c : Char) : Bool := c.isAlphanum || c == '_' || c == '-'

/-- Reads one part of a key. -/
def keyPart (t : Text) : Except Error (Text × Text) :=
  match t.takeWhile isKeyChar with
  | [] => expect (lineString? t)
  | key => .ok (key, t.dropWhile isKeyChar)

/-- Reads parts of a key with points between them. -/
def keyParts (t : Text) : Except Error (List Text × Text) := do
  let (part, rest) ← keyPart (skipSpaces t)
  match skipSpaces rest with
  | '.' :: more =>
    if more.length < t.length then
      let (parts, rest) ← keyParts more
      return (part :: parts, rest)
    else throw .malformed
  | rest => return ([part], rest)
termination_by t.length

/-- Reads a key, which has at most `maxDepth` parts. -/
def keyPath (t : Text) : Except Error (List Text × Text) := do
  let (path, rest) ← keyParts t
  if path.length ≤ maxDepth then return (path, rest) else throw .malformed

/-- The parents of a key and its last part. -/
def splitKey (path : List Text) : List Text × Text := (path.dropLast, path.getLast?.getD [])

/-! ### Values -/

/-- Reads items with commas between them, up to the closing character; a comma may follow the last
one. -/
def items {α : Type} (close : Char) (item : Text → Except Error (α × Text)) (t : Text) :
    Except Error (List α × Text) := do
  match ← skipTrivia t with
  | [] => throw .malformed
  | c :: rest =>
    if c = close then return ([], rest)
    else
      let (first, rest) ← item (c :: rest)
      match ← skipTrivia rest with
      | ',' :: rest =>
        if rest.length < t.length then
          let (more, rest) ← items close item rest
          return (first :: more, rest)
        else throw .malformed
      | d :: rest => if d = close then return ([first], rest) else throw .malformed
      | [] => throw .malformed
termination_by t.length

/-- Reads a key, an equals sign and a value. What `skip` drops may stand around the equals sign. -/
def keyValue (skip : Text → Except Error Text) (value : Text → Except Error (Value × Text))
    (t : Text) : Except Error ((List Text × Value) × Text) := do
  let (path, rest) ← keyPath t
  match ← skip rest with
  | '=' :: rest =>
    let (v, rest) ← value (← skip rest)
    return ((path, v), rest)
  | _ => throw .malformed

/-- The table in braces that keys and values make up. -/
def bracedTable (pairs : List (List Text × Value)) : Except Error Value := do
  let (_, entries) ← pairs.foldlM (fun table pair =>
    let (parents, key) := splitKey pair.1
    assign parents key pair.2 table.1 table.2) (TableForm.header, [])
  return .table .braced entries

/-- Reads a value in which arrays and tables nest at most `depth` deep. -/
def value : Nat → Text → Except Error (Value × Text)
  | depth, t =>
    match depth, t with
    | d + 1, '[' :: t => do
      let (vs, rest) ← items ']' (value d) t
      return (.array vs, rest)
    | d + 1, '\x7b' :: t => do
      let (pairs, rest) ← items '\x7d' (keyValue skipTrivia (value d)) t
      return (← bracedTable pairs, rest)
    | _, t =>
      match string? t with
      | some (s, rest) => .ok (.string s, rest)
      | none => do
        let (w, rest) := word t
        return (← expect (ofWord? w), rest)

/-! ### Lines -/

/-- What has been read of a document: the root table, and the header of the table at hand. -/
structure Progress where
  root : Entries
  current : List Text

/-- Changes the root table. -/
def Progress.apply (p : Progress) (change : Change) : Except Error Progress := do
  let (_, root) ← change .header p.root
  return { p with root }

/-- Reads a header after its opening brackets, up to and with `close`. -/
def header (close t : Text) : Except Error (List Text × Text) := do
  let (path, rest) ← keyPath t
  let rest ← expect (close.isPrefixOf? (skipSpaces rest))
  return (path, rest)

/-- Reads what a line holds apart from blanks and a comment. -/
def expression (p : Progress) : Text → Except Error (Progress × Text)
  | '[' :: '[' :: t => do
    let (path, rest) ← header [']', ']'] t
    let (parents, key) := splitKey path
    let p ← p.apply (openElement parents key)
    return ({ p with current := path }, rest)
  | '[' :: t => do
    let (path, rest) ← header [']'] t
    let (parents, key) := splitKey path
    let p ← p.apply (openTable parents key)
    return ({ p with current := path }, rest)
  | t =>
    if t.isEmpty || t.head? == some '#' || (afterLineBreak? t).isSome then .ok (p, t)
    else do
      let ((path, v), rest) ← keyValue (fun t => .ok (skipSpaces t)) (value maxDepth) t
      let (parents, key) := splitKey path
      let p ← p.apply (alterHeader (assign parents key v) p.current)
      return (p, rest)

/-- Reads the lines of a document. -/
def readLines (p : Progress) (t : Text) : Except Error Progress := do
  let (p, rest) ← expression p (skipSpaces t)
  let rest ← skipComment (skipSpaces rest)
  match rest with
  | [] => return p
  | rest =>
    let next ← expect (afterLineBreak? rest)
    if next.length < t.length then readLines p next else throw .malformed
termination_by t.length

/-- The entries of the root table of a document. A byte order mark may stand in front of it. -/
def parse (t : Text) : Except Error Entries := do
  let p ← readLines ⟨[], []⟩ (Text.withoutStart ['\uFEFF'] t)
  return p.root

end DocPages.Toml
