import DocPages.Path

/-!
# Command line arguments

`Arguments.parse` reads the words of a command line. An option that takes a value finds it behind
it: in the rest of its word (`-px`, `-p=x`, `--path=x`) or in the next word. Switches of one letter
may share a word.

A value in a word of its own is taken up only when the next option is read or the words end
(`settle`). So a word that is no option at all is reported before a fault of the value in front of
it.
-/

namespace DocPages

/-- The options that take a value. -/
inductive ValueOption where
  | path
  | source
  | output
  deriving DecidableEq, Repr

/-- The options that take none. -/
inductive Switch where
  | verbose
  | noColor
  | help
  | version
  deriving DecidableEq, Repr

/-- What the command line asks for. -/
structure Arguments where
  /-- The project root. -/
  path : Option Path
  /-- The directory of the sources. -/
  source : Option Path
  /-- The directory of the documents. -/
  output : Option Path
  /-- Whether each document is reported. -/
  verbose : Bool
  /-- Whether colours are refused. -/
  noColor : Bool
  deriving DecidableEq, Repr

/-- Why the words of a command line start no run. -/
inductive Stop where
  /-- A word is no option. -/
  | unknownArgument
  /-- A value is missing or empty. -/
  | invalidValue
  /-- A switch has a value. -/
  | tooManyValues
  /-- An option is given twice. -/
  | argumentConflict
  /-- Help is asked for, in full or in short. -/
  | help (inFull : Bool)
  /-- The version is asked for. -/
  | version
  deriving DecidableEq, Repr

namespace Stop

/-- The exit code of a command that is stopped. -/
def exitCode : Stop → Nat
  | help _ | version => 0
  | _ => 2

end Stop

namespace Arguments

/-- Nothing is asked for. -/
def nothing : Arguments := ⟨none, none, none, false, false⟩

/-- The value of an option. -/
def value? (a : Arguments) : ValueOption → Option Path
  | .path => a.path
  | .source => a.source
  | .output => a.output

/-- The arguments with a value for an option. -/
def withValue (a : Arguments) (v : Path) : ValueOption → Arguments
  | .path => { a with path := some v }
  | .source => { a with source := some v }
  | .output => { a with output := some v }

/-- Options by their letters. -/
def letters : List (Char × (ValueOption ⊕ Switch)) := [
  ('p', .inl .path), ('s', .inl .source), ('o', .inl .output), ('v', .inr .verbose),
  ('h', .inr .help), ('V', .inr .version)]

/-- Options by their names. -/
def names : List (Text × (ValueOption ⊕ Switch)) := [
  ("path".toList, .inl .path), ("source".toList, .inl .source), ("output".toList, .inl .output),
  ("verbose".toList, .inr .verbose), ("no-color".toList, .inr .noColor),
  ("help".toList, .inr .help), ("version".toList, .inr .version)]

/-- How far the words have been read: the arguments so far, and the option whose value stands in a
word of its own, with that value once it has been read. -/
structure Progress where
  arguments : Arguments
  pending : Option (ValueOption × Option Text)
  deriving DecidableEq, Repr

/-- Gives an option a value. -/
def set (a : Arguments) (o : ValueOption) (v : Text) : Except Stop Arguments :=
  if (a.value? o).isSome then .error .argumentConflict
  else if v = [] then .error .invalidValue
  else .ok (a.withValue v o)

/-- Takes up the value that was read last. -/
def settle (p : Progress) : Except Stop Arguments :=
  match p.pending with
  | none => .ok p.arguments
  | some (_, none) => .error .invalidValue
  | some (o, some v) => p.arguments.set o v

/-- Turns a switch on. -/
def turnOn (a : Arguments) (inFull : Bool) : Switch → Except Stop Arguments
  | .verbose => if a.verbose then .error .argumentConflict else .ok { a with verbose := true }
  | .noColor => if a.noColor then .error .argumentConflict else .ok { a with noColor := true }
  | .help => .error (.help inFull)
  | .version => .error .version

/-- Reads an option that takes a value, which may stand behind it in its word. -/
def readOption (p : Progress) (o : ValueOption) (attached : Option Text) :
    Except Stop Progress := do
  let a ← settle p
  match attached with
  | some v => return ⟨← a.set o v, none⟩
  | none => return ⟨a, some (o, none)⟩

/-- Reads a word of letters, after its hyphen. -/
def readLetters (p : Progress) : Text → Except Stop Progress
  | [] => .ok p
  | c :: rest =>
    match letters.lookup c with
    | none => .error .unknownArgument
    | some (.inl o) =>
      readOption p o (if rest = [] then none else some (Text.withoutStart ['='] rest))
    | some (.inr s) => do
      let a ← settle p
      readLetters ⟨← a.turnOn false s, none⟩ rest

/-- Reads a word with the name of an option, after its hyphens. -/
def readName (p : Progress) (word : Text) : Except Stop Progress :=
  let name := word.takeWhile (· != '=')
  let attached := if '=' ∈ word then some (word.drop (name.length + 1)) else none
  match names.lookup name with
  | none => .error .unknownArgument
  | some (.inl o) => readOption p o attached
  | some (.inr s) =>
    if attached.isSome then .error .tooManyValues
    else do
      let a ← settle p
      return ⟨← a.turnOn true s, none⟩

/-- Reads a word that is no option: the value of the option before it, if that has none yet. -/
def readValue (p : Progress) (word : Text) : Except Stop Progress :=
  match p.pending with
  | some (o, none) => .ok { p with pending := some (o, some word) }
  | _ => .error .unknownArgument

/-- Reads the rest of the words. After two hyphens there may be none. -/
def parseFrom (p : Progress) : List Text → Except Stop Arguments
  | [] => settle p
  | word :: rest =>
    match word with
    | ['-', '-'] => if rest = [] then settle p else .error .unknownArgument
    | '-' :: '-' :: name => do parseFrom (← readName p name) rest
    | '-' :: c :: cs => do parseFrom (← readLetters p (c :: cs)) rest
    | word => do parseFrom (← readValue p word) rest

/-- Reads the words of a command line. -/
def parse (words : List Text) : Except Stop Arguments := parseFrom ⟨nothing, none⟩ words

end Arguments

end DocPages
