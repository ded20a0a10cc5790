import DocPages.Path
import DocPages.Toml.Document

/-!
# Settings

What a project's settings file says: where the sources are, where the documents go, which files are
read and which are left out. Every key may be missing, unknown keys are ignored unless their value
has a number in it that cannot be held, and a key with a value of the wrong kind is an error.
`Settings.parse` reads the file, `Plan.ofSettings` resolves the settings of a project against its
root directory.
-/

namespace DocPages

/-- The settings of a project. -/
structure Settings where
  /-- The directory whose files are read. -/
  sourceDir : Path
  /-- The directory that the documents are written to. -/
  outputDir : Path
  /-- The extension of source files, with or without points in front. -/
  extension : Text
  /-- The size in bytes above which a file is skipped. -/
  maxFileSize : Nat
  /-- The patterns of files and directories to leave out. -/
  exclude : List Text
  deriving DecidableEq, Repr

/-- Resolved settings of a run: directories are seen from the project root, and the extension has no
points in front. -/
structure Plan where
  sourceDir : Path
  outputDir : Path
  extension : Text
  maxFileSize : Nat
  exclude : List Text
  deriving DecidableEq, Repr

namespace Settings

/-- The settings of a project that says nothing. -/
def default : Settings :=
  ⟨"Classes".toList, "docs/generated".toList, "php".toList, 10 * 1024 * 1024, []⟩

/-- The places of the settings file in a project, of which the first one counts. -/
def fileNames : List Path :=
  ["docmd.toml".toList, ".docmd.toml".toList, ".config/docmd.toml".toList]

/-- The extension without points in front. -/
def bareExtension (s : Settings) : Text := s.extension.dropWhile (· == '.')

/-- The largest file size that can be set. -/
def sizeLimit : Nat := Nat.pow 2 64 - 1

/-! ### Reading the file -/

section Reading

open Toml

/-- Reads the value of a key that may be missing. -/
def field {α : Type} (entries : Entries) (key : Text) (ofValue : Value → Option α) (missing : α) :
    Except Toml.Error α :=
  match entries.lookup key with
  | none => .ok missing
  | some v =>
    match ofValue v with
    | some a => .ok a
    | none => .error (.wrongKind key)

/-- A key other than `known` whose value has a number in it that cannot be held. -/
def unreadableKey? (known : List Text) (entries : Entries) : Option Text :=
  (entries.find? fun entry => entry.1 ∉ known && !entry.2.isReadable).map Prod.fst

/-- A value that is a string. -/
def string? : Value → Option Text
  | .string s => some s
  | _ => none

/-- A value that is a file size. -/
def size? : Value → Option Nat
  | .integer n => if 0 ≤ n ∧ n ≤ sizeLimit then some n.toNat else none
  | _ => none

/-- A value that is an array of patterns. -/
def patterns? : Value → Option (List Text)
  | .array items => items.mapM string?
  | _ => none

/-- The patterns of a value that says what to leave out: a table with a key for them, or an array
that starts with them, of which nothing else is read. A date says nothing. -/
def exclude? : Value → Option (List Text)
  | .table _ entries =>
    if (unreadableKey? ["patterns".toList] entries).isSome then none
    else
      match entries.lookup "patterns".toList with
      | none => some []
      | some v => patterns? v
  | .array [] => some []
  | .array (v :: _) => patterns? v
  | .date _ => some []
  | _ => none

/-- The keys of a settings file. -/
def keys : List Text :=
  ["source_dir", "output_dir", "extension", "max_file_size", "exclude"].map String.toList

/-- The settings that a document with the given entries makes. -/
def ofEntries (entries : Entries) : Except Toml.Error Settings := do
  if let some key := unreadableKey? keys entries then throw (.unreadable key)
  return ⟨← field entries "source_dir".toList string? default.sourceDir,
    ← field entries "output_dir".toList string? default.outputDir,
    ← field entries "extension".toList string? default.extension,
    ← field entries "max_file_size".toList size? default.maxFileSize,
    ← field entries "exclude".toList exclude? default.exclude⟩

/-- The settings in the text of a settings file. -/
def parse (t : Text) : Except Toml.Error Settings := do ofEntries (← Toml.parse t)

end Reading

end Settings

namespace Plan

/-- The plan for the project in the directory `root`. A project without settings gets the default
ones. -/
def ofSettings (root : Path) (settings : Option Settings) : Plan :=
  let s := settings.getD Settings.default
  { sourceDir := Path.join root s.sourceDir
    outputDir := Path.join root s.outputDir
    extension := s.bareExtension
    maxFileSize := s.maxFileSize
    exclude := s.exclude }

end Plan

end DocPages
