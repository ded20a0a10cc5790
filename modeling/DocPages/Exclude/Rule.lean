import DocPages.Exclude.Expression
import DocPages.Failure

/-!
# Exclude rules

Exclude patterns have the syntax of ignore files. `Rule.ofLine` reads one, `excludes` decides by a
row of rules: the last rule that matches a path, seen from the source directory, decides whether it
is left out. `Rule.ofPatterns` reads all patterns of a project and sees to it that they can be
matched.
-/

namespace DocPages

/-- A pattern of an ignore file. -/
structure Rule where
  /-- The glob that paths are compared with. -/
  parts : List Glob.Part
  /-- Whether the rule keeps what it matches. -/
  keeps : Bool
  /-- Whether the rule applies to directories only. -/
  directoriesOnly : Bool

namespace Rule

/-- A line without blanks at its end, unless the last of them follows a backslash. -/
def trimLine (line : Text) : Text :=
  if ['\\', ' '].isSuffixOf line then line else Text.trimEnd line

/-- The glob that a pattern stands for, where `anchored` tells that the pattern starts at the source
directory. A name alone may stand anywhere, and names at the end are at least one. -/
def globText (anchored : Bool) (pattern : Text) : Text :=
  let anywhere := !anchored && '/' ∉ pattern && pattern != "**".toList
  let full := if anywhere then "**/".toList ++ pattern else pattern
  if "/**".toList.isSuffixOf full then full ++ "/*".toList else full

/-- The parts of a line before its glob: whether it keeps what it matches, whether it is anchored,
and the pattern. -/
def readMarks (line : Text) : Bool × Bool × Text :=
  match line with
  | '\\' :: '!' :: t => (false, false, '!' :: t)
  | '\\' :: '#' :: t => (false, false, '#' :: t)
  | '!' :: '/' :: t => (true, true, t)
  | '!' :: t => (true, false, t)
  | '/' :: t => (false, true, t)
  | t => (false, false, t)

/-- Whether a pattern ends in a slash, and the pattern without it and without a backslash before it.
-/
def readDirectoryMark (pattern : Text) : Bool × Text :=
  match ['/'].isSuffixOf? pattern with
  | some t => (true, Text.withoutEnd ['\\'] t)
  | none => (false, pattern)

/-- The rule of a line. Comments and empty lines make none. -/
def ofLine (line : Text) : Except Failure (Option Rule) :=
  let trimmed := trimLine line
  if line.head? = some '#' ∨ trimmed = [] then .ok none
  else
    let (keeps, anchored, marked) := readMarks trimmed
    let (directoriesOnly, pattern) := readDirectoryMark marked
    match Glob.parse (globText anchored pattern) with
    | .ok parts => .ok (some ⟨parts, keeps, directoriesOnly⟩)
    | .error e =>
      let reason := "error parsing glob '".toList ++ trimmed ++ "': ".toList ++ e.message
      .error (.excludePattern line reason)

/-- The rules of a row of lines. -/
def ofLines : List Text → Except Failure (List Rule)
  | [] => .ok []
  | line :: lines => do
    let rule ← ofLine line
    let rules ← ofLines lines
    return rule.toList ++ rules

/-- Why rules cannot be matched, if their regular expressions nest too deep. Those of globs with an
extension are made first, each by itself, and all others together. -/
def nestingFault? (rules : List Rule) : Option Text :=
  let globs := (rules.map Rule.parts).filter fun parts => !Glob.isDirect parts
  let (single, joint) := globs.partition Glob.hasExtension
  match single.find? Glob.isTooDeep with
  | some parts =>
    some ("error parsing glob '".toList ++ Glob.expression parts ++
      "': error parsing pattern 0".toList)
  | none =>
    (joint.findIdx? Glob.isTooDeep).map fun n =>
      "error parsing pattern ".toList ++ Nat.toDigits 10 n

/-- The rules of the patterns of a project. -/
def ofPatterns (patterns : List Text) : Except Failure (List Rule) := do
  let rules ← ofLines patterns
  match nestingFault? rules with
  | some reason => throw (.excludePattern (List.intercalate ", ".toList patterns) reason)
  | none => return rules

/-- Whether a rule matches a path. -/
def applies (rule : Rule) (path : Path) (isDirectory : Bool) : Bool :=
  (!rule.directoriesOnly || isDirectory) && Glob.accepts rule.parts (Text.toUtf8 path)

end Rule

namespace Path

/-- Whether a path leads nowhere from the working directory. -/
def isHere (p : Path) : Bool := !isAbsolute p && !p.isEmpty && (components p).isEmpty

/-- A path as seen from the directory `root`. Paths without a slash, and paths that do not start
with `root`, are left as they are. -/
def relativeTo (root path : Path) : Path :=
  let root := Text.withoutStart "./".toList root
  let path := Text.withoutStart "./".toList path
  if isHere root || '/' ∉ path then path
  else
    match root.isPrefixOf? path with
    | some rest => Text.withoutStart ['/'] rest
    | none => path

end Path

/-- Whether the rules leave out a path below the source directory `root`. -/
def excludes (rules : List Rule) (root path : Path) (isDirectory : Bool) : Bool :=
  let seen := Path.relativeTo root path
  match (rules.filter fun rule => rule.applies seen isDirectory).getLast? with
  | some rule => !rule.keeps
  | none => false

end DocPages
