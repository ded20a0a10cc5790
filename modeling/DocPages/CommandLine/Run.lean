import DocPages.CommandLine.Arguments
import DocPages.CommandLine.Help
import DocPages.Generate

/-!
# The command

`CommandLine.run` is the command as a function: the words of the command line, the environment and
the file system give an exit code, what is printed, and the file system afterwards. It prints a
banner, a line for each event of the run, and at the end of a run that succeeds where the documents
are. Headlines are coloured when the environment asks for it (`Environment.colorsRuns`) and the
command line does not refuse it.
-/

namespace DocPages

namespace CommandLine

/-! ### Output -/

/-- What is printed first. -/
def banner (color : Bool) : Text :=
  line [] ++ line (bold color "docmd: documentation blocks to markdown".toList) ++ line []

/-- What is printed for an event. -/
def eventText (verbose : Bool) : Event → Text
  | .scanStarted extension => line ("Scanning ".toList ++ extension ++ " files...".toList)
  | .scanFinished n => line ("   Found ".toList ++ (toString n).toList ++ " classes".toList)
  | .generateStarted => line "Generating documentation...".toList
  | .documentWritten p => if verbose then line ("   Wrote ".toList ++ p) else []

/-- What is printed at the end of a run that succeeded. -/
def footer (color : Bool) (outputDir : Path) : Text :=
  line (green color "Documentation generated successfully in".toList ++ ' ' :: outputDir) ++
    line [] ++ line (bold color "Done!".toList)

/-! ### The command -/

/-- What a command did. -/
structure Result where
  exitCode : Nat
  /-- What it printed. -/
  output : Text
  /-- Why it failed, if it did. -/
  failure : Option Failure
  disk : FileSystem

/-- The root directory of the project: the one that the command line names, or the working directory.
The path of the working directory is always known, so there is no fallback to the path `.`. -/
def rootOf (fs : FileSystem) (a : Arguments) : Path :=
  a.path.getD (FileSystem.pathOf fs.workingDirectory)

/-- The plan of the project, with the directories that the command line names in the place of those
of the settings. -/
def planFor (fs : FileSystem) (a : Arguments) : Except Failure Plan :=
  let root := rootOf fs a
  (loadPlan fs root).map fun plan =>
    { plan with
      sourceDir := (a.source.map (Path.join root)).getD plan.sourceDir
      outputDir := (a.output.map (Path.join root)).getD plan.outputDir }

/-- Runs the command with the given arguments. -/
def execute (fs : FileSystem) (env : Environment) (a : Arguments) : Result :=
  let color := !a.noColor && env.colorsRuns
  match planFor fs a with
  | .error e => ⟨1, banner color, some e, fs⟩
  | .ok plan =>
    let run := generate fs plan
    let output := banner color ++ run.events.flatMap (eventText a.verbose)
    match run.result with
    | .error e => ⟨1, output, some e, run.disk⟩
    | .ok report => ⟨0, output ++ footer color report.outputDir, none, run.disk⟩

/-- What is printed when the words of a command line start no run. -/
def stopText (env : Environment) : Stop → Text
  | .help inFull => helpText env.stylesHelp inFull
  | .version => versionText
  | _ => []

/-- Runs the command with the words of a command line. -/
def run (fs : FileSystem) (env : Environment) (words : List Text) : Result :=
  match Arguments.parse words with
  | .error stop => ⟨stop.exitCode, stopText env stop, none, fs⟩
  | .ok a => execute fs env a

end CommandLine

end DocPages
