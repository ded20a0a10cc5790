import DocPages.DocBlock.Tags
import DocPages.Text.WordChar

/-!
# Documentation blocks

A documentation block is read line by line (`ofText`). `undecorated` takes the comment marks off a
line, and a line that holds nothing after that is passed over. The first line with a leading `@` ends
the description; from there on only tag lines count, a tag line being an `@`, a name, blanks and a
value (`tagOfLine?`). `Reading` is how far a block has been read, and `Reading.readLine` reads one
more line.
-/

namespace DocPages

/-- What a documentation block says. -/
structure DocBlock where
  /-- The lines of free text, joined by line feeds. -/
  description : Text
  tags : Tags
  deriving DecidableEq, Repr

namespace DocBlock

/-- A line without the opening mark, the closing mark and one star at its start, trimmed. -/
def undecorated (line : Text) : Text :=
  let opened := Text.withoutStart "/**".toList (Text.trim line)
  let closed := Text.trim (Text.withoutEnd "*/".toList opened)
  Text.trim (Text.withoutStart ['*'] closed)

/-- Whether a line opens like a tag, which ends the description. -/
def startsTag (line : Text) : Bool := line.head? == some '@'

/-- The name and the value of a tag line. -/
def tagOfLine? : Text → Option (Text × Text)
  | '@' :: line =>
    let name := line.takeWhile isWordChar
    let afterName := line.dropWhile isWordChar
    let value := afterName.dropWhile Text.isBlank
    if name.isEmpty || (afterName.takeWhile Text.isBlank).isEmpty then none
    else some (name, Text.trimEnd value)
  | _ => none

/-! ### Reading a block -/

/-- How far a block has been read. -/
structure Reading where
  /-- Whether a line may still belong to the description. -/
  inDescription : Bool
  /-- The lines of the description so far. -/
  description : Array Text
  /-- The tags so far. -/
  tags : Tags
  deriving DecidableEq, Repr

namespace Reading

/-- Nothing has been read. -/
def start : Reading := ⟨true, #[], .empty⟩

/-- Reads one more line. A line with a leading `@` ends the description for good, also when it is no
tag line. -/
def readLine (r : Reading) (line : Text) : Reading :=
  let content := undecorated line
  if content.isEmpty then r
  else if startsTag content then
    match tagOfLine? content with
    | some (name, value) => { r with inDescription := false, tags := r.tags.insert name value }
    | none => { r with inDescription := false }
  else if r.inDescription then { r with description := r.description.push content }
  else r

end Reading

/-- Reads a documentation block, delimiters included. -/
def ofText (raw : Text) : DocBlock :=
  let r := (Text.lines raw).foldl Reading.readLine Reading.start
  { description := Text.joinLines r.description.toList, tags := r.tags }

end DocBlock

end DocPages
