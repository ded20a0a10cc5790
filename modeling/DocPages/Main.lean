import DocPages.CommandLine.Run

/-!
# The command on a real disk

The command works on a file system that is a value. This module takes down what a run may look at
(`trace`, `survey`), lets `CommandLine.execute` work on that, prints what it printed, and then
carries out on the disk what it changed (`carryOut`). Links that lead nowhere are not taken down.
-/

namespace DocPages

namespace Disk

/-- A text as a string for the system. -/
def string (t : Text) : String := String.ofList t

/-- The location of an absolute path without links. -/
def locationOf (p : String) : Location := Path.components p.toList

/-- The path of a location. -/
def pathString (loc : Location) : String := string (FileSystem.pathOf loc)

/-- Takes down a directory and those above it. -/
def putDirectories (fs : FileSystem) (loc : Location) : FileSystem :=
  (List.range loc.length).foldl (fun fs n => fs.put (loc.take (n + 1)) .directory) fs

/-- The path without links of what a path leads to, if it leads anywhere. -/
def realPath? (p : String) : IO (Option String) := do
  match ← (IO.FS.realPath p).toBaseIO with
  | .ok real => return some real.toString
  | .error _ => return none

/-- Whether a path leads to a directory. -/
def isDirectory (p : String) : IO Bool := do
  let real ← IO.FS.realPath p
  real.isDir

/-- The content of a file that is wanted. Others are taken down as if they were empty. -/
def contentOf (p : String) (isWanted : Bool) : IO Bytes := do
  if isWanted then return (← IO.FS.readBinFile p).toList else return []

/-- Takes down what lies at a path without links, and the link that leads to it from the location
`loc` if they differ. The result tells whether it is a directory. -/
def putNode (fs : FileSystem) (loc : Location) (real : String) (isWanted : Bool) :
    IO (FileSystem × Bool) := do
  let target := locationOf real
  let fs := if target = loc then fs else fs.put loc (.link real.toList)
  let fs := putDirectories fs target.dropLast
  if ← isDirectory real then return (putDirectories fs target, true)
  else return (fs.put target (.file (← contentOf real isWanted)), false)

/-- Takes down what lies on a path, as far as it leads, and the content of the file at its end. -/
def trace (fs : FileSystem) (p : Path) : IO FileSystem := do
  let start := if Path.isAbsolute p then "/" else "."
  let mut fs := fs
  let mut here := locationOf ((← realPath? start).getD "/")
  fs := putDirectories fs here
  for name in Path.components p do
    if name = ['.', '.'] then
      here := here.dropLast
    else
      let next := here ++ [name]
      match ← realPath? (pathString next) with
      | none => return fs
      | some real =>
        let (seen, isDir) ← putNode fs next real true
        fs := seen
        if !isDir then return fs
        here := locationOf real
  return fs

/-- Takes down everything below the directories `todo`, through links, with the content of the files
that `wanted` names. -/
partial def survey (wanted : Path → Bool) (fs : FileSystem) (seen todo : List Location) :
    IO FileSystem := do
  match todo with
  | [] => return fs
  | loc :: rest =>
    if loc ∈ seen then survey wanted fs seen rest
    else
      let mut fs := fs
      let mut below := []
      let dir ← IO.FS.realPath (pathString loc)
      for entry in ← dir.readDir do
        let name := entry.fileName.toList
        match ← realPath? (pathString (loc ++ [name])) with
        | none => pure ()
        | some real =>
          let (put, isDir) ← putNode fs (loc ++ [name]) real (wanted name)
          fs := put
          if isDir then below := locationOf real :: below
      survey wanted fs (loc :: seen) (below ++ rest)

/-- Makes on the disk what `after` has and `before` has not. -/
def carryOut (before after : FileSystem) : IO Unit := do
  for (loc, node) in after.entries do
    if before.node? loc ≠ some node then
      match node with
      | .directory => IO.FS.createDirAll (pathString loc)
      | .file content => IO.FS.writeBinFile (pathString loc) ⟨content.toArray⟩
      | .link _ => pure ()

/-- What a run with the given arguments may look at. -/
def takeDown (a : Arguments) : IO FileSystem := do
  let here := locationOf ((← realPath? ".").getD "/")
  let mut fs := { FileSystem.empty with workingDirectory := here }
  let root := CommandLine.rootOf fs a
  for name in Settings.fileNames do
    fs ← trace fs (Path.join root name)
  match CommandLine.planFor fs a with
  | .error _ => return fs
  | .ok plan =>
    fs ← trace (← trace fs plan.outputDir) plan.sourceDir
    match fs.directoryAt? plan.sourceDir with
    | none => return fs
    | some loc => survey (hasExtension plan.extension) fs [] [loc]

/-- The variables that tell when output is styled. -/
def variableNames : List String :=
  ["NO_COLOR", "FORCE_COLOR", "CLICOLOR_FORCE", "CLICOLOR", "COLORTERM", "TERM", "CI",
    "IGNORE_IS_TERMINAL"]

/-- What surrounds the command. -/
def environment : IO Environment := do
  let values ← variableNames.filterMapM fun name => do
    return (← IO.getEnv name).map fun value => (name.toList, value.toList)
  return ⟨values, ← (← IO.getStdout).isTty⟩

/-- A failure as it is shown. -/
def report (f : Failure) : String :=
  let help := match f.help? with
    | some t => "\n  help: ".toList ++ t
    | none => []
  string (f.code ++ "\n  ".toList ++ f.message ++ help)

/-- Runs the command with the given arguments. -/
def execute (a : Arguments) : IO UInt32 := do
  let fs ← takeDown a
  let result := CommandLine.execute fs (← environment) a
  carryOut fs result.disk
  IO.print (string result.output)
  if let some f := result.failure then
    IO.eprintln (report f)
  return result.exitCode.toUInt32

end Disk

end DocPages

/-- Reads the words of the command line and runs the command. -/
def main (words : List String) : IO UInt32 := do
  match DocPages.Arguments.parse (words.map String.toList) with
  | .ok a => DocPages.Disk.execute a
  | .error stop =>
    let env ← DocPages.Disk.environment
    IO.print (DocPages.Disk.string (DocPages.CommandLine.stopText env stop))
    if stop.exitCode ≠ 0 then
      IO.eprintln "error: invalid arguments\n\nFor more information, try '--help'."
    return stop.exitCode.toUInt32
