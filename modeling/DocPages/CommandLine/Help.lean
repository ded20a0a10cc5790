import DocPages.CommandLine.Color

/-!
# Help texts

What the command prints when it is asked for its version (`versionText`) or for help (`helpText`).
The help lists the options with their purposes, in short one option on a line, in full with the
purpose on a line of its own. Headings and the names of options may be styled.
-/

namespace DocPages

namespace CommandLine

/-- A text as a line. -/
def line (t : Text) : Text := t ++ ['\n']

/-- The name and the version of the command. -/
def versionText : Text := line "docmd_cli 0.1.0".toList

/-- An option as the help shows it. -/
structure OptionHelp where
  letter? : Option Char
  name : String
  /-- The name of its value, if it takes one. -/
  placeholder? : Option String
  purpose : String

/-- The options, in the order in which the help lists them. -/
def optionHelps (inFull : Bool) : List OptionHelp := [
  ⟨some 'p', "path", some "PATH",
    "Path to the project root directory. Defaults to the current directory"⟩,
  ⟨some 's', "source", some "SOURCE",
    "Directory to scan for source files, relative to the project root"⟩,
  ⟨some 'o', "output", some "OUTPUT",
    "Directory to write the markdown files to, relative to the project root"⟩,
  ⟨some 'v', "verbose", none, "Enable verbose output"⟩,
  ⟨none, "no-color", none, "Disable colored output"⟩,
  ⟨some 'h', "help", none,
    if inFull then "Print help (see a summary with '-h')"
    else "Print help (see more with '--help')"⟩,
  ⟨some 'V', "version", none, "Print version"⟩]

/-- The letter and the name of an option, and the name of its value. -/
def OptionHelp.label (isStyled : Bool) (o : OptionHelp) : Text :=
  let letter := match o.letter? with
    | some c => bold isStyled ['-', c] ++ ", ".toList
    | none => "    ".toList
  let placeholder := match o.placeholder? with
    | some name => " <".toList ++ name.toList ++ ['>']
    | none => []
  letter ++ bold isStyled ("--" ++ o.name).toList ++ placeholder

/-- The column in which purposes start in the short help: two blanks behind the longest label. -/
def purposeColumn : Nat :=
  ((optionHelps false).map fun o => (o.label false).length).foldl max 0 + 2

/-- An option in the short help. -/
def OptionHelp.short (isStyled : Bool) (o : OptionHelp) : Text :=
  let blanks := purposeColumn - (o.label false).length
  line ("  ".toList ++ o.label isStyled ++ List.replicate blanks ' ' ++ o.purpose.toList)

/-- An option in the full help. -/
def OptionHelp.full (isStyled : Bool) (o : OptionHelp) : Text :=
  line ("  ".toList ++ o.label isStyled) ++ line ("          ".toList ++ o.purpose.toList)

/-- What the command is for, in short or in full. -/
def about (inFull : Bool) : Text :=
  if inFull then
    line ("docmd scans a source tree for documentation blocks, recovers the namespace, type and " ++
      "method declarations they document, and writes one markdown page per type together with " ++
      "a namespace index (index.md) and a flat API reference (api-reference.md).").toList ++
    line [] ++
    line ("Run it without arguments from the project root. Settings are read from docmd.toml " ++
      "when present; the flags below override them.").toList
  else line "Generate markdown documentation from `/** ... */` documentation blocks.".toList

/-- The help, in short or in full. -/
def helpText (isStyled inFull : Bool) : Text :=
  let options := optionHelps inFull
  let list :=
    if inFull then List.intercalate (line []) (options.map (OptionHelp.full isStyled))
    else options.flatMap (OptionHelp.short isStyled)
  about inFull ++ line [] ++
    line (heading isStyled "Usage:".toList ++ ' ' :: bold isStyled "docmd".toList ++
      " [OPTIONS]".toList) ++
    line [] ++ line (heading isStyled "Options:".toList) ++ list

end CommandLine

end DocPages
