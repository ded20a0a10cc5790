import DocPages.Declaration.Extract
import DocPages.Discovery
import DocPages.FileSystem.Change
import DocPages.Page
import DocPages.Text.LineEnding

/-!
# Generating documentation

A run reads the source files of a plan (`scanProject`), turns their declarations into documents and
writes these to the output directory. `generate` gives its result, the events on the way and the
file system afterwards. Nothing is written before every source file has been read, and each document
is reported after it has been written, so a run that fails has written exactly what it has reported.
-/

namespace DocPages

/-! ### Reading -/

/-- The settings file of the project in the directory `root`: the first of the possible ones that is
there. -/
def settingsFile? (fs : FileSystem) (root : Path) : Option Path :=
  (Settings.fileNames.map (Path.join root)).find? fs.isFile

/-- The settings of the project in the directory `root`, if it has a settings file. -/
def loadSettings (fs : FileSystem) (root : Path) : Except Failure (Option Settings) :=
  match settingsFile? fs root with
  | none => .ok none
  | some p =>
    match fs.readText p with
    | .error e => .error (.io e)
    | .ok t =>
      match Settings.parse t with
      | .ok settings => .ok (some settings)
      | .error e => .error (.settings e.message)

/-- The plan for the project in the directory `root`. -/
def loadPlan (fs : FileSystem) (root : Path) : Except Failure Plan :=
  (loadSettings fs root).map (Plan.ofSettings root)

/-- A file that was not read because of its size. -/
structure Skipped where
  path : Path
  size : Nat
  limit : Nat
  deriving DecidableEq, Repr

/-- What became of a source file. -/
inductive FileScan where
  | skipped (file : Skipped)
  | extracted (extraction : Extraction)
  deriving DecidableEq, Repr

/-- The declaration of a source file that was read. -/
def FileScan.declaration? : FileScan → Option Declaration
  | skipped _ => none
  | extracted e => e.declaration

/-- The file, if it was not read. -/
def FileScan.skipped? : FileScan → Option Skipped
  | skipped file => some file
  | extracted _ => none

/-- Reads a source file, unless it has more than `limit` bytes. Malformed bytes and the form of line
endings do not matter. -/
def scanFile (fs : FileSystem) (limit : Nat) (p : Path) : Except Failure FileScan :=
  match fs.size p with
  | .error e => .error (.io e)
  | .ok size =>
    if limit < size then .ok (.skipped ⟨p, size, limit⟩)
    else
      match fs.readFile p with
      | .error e => .error (.io e)
      | .ok content =>
        .ok (.extracted (scanSource p (Text.unifyLineEndings (Text.ofUtf8Lossy content))))

/-- Reads files in order, up to the first one that cannot be read. -/
def scanFiles (fs : FileSystem) (limit : Nat) : List Path → Except Failure (List FileScan)
  | [] => .ok []
  | p :: rest =>
    match scanFile fs limit p with
    | .error e => .error e
    | .ok scan => (scanFiles fs limit rest).map (scan :: ·)

/-- Reads the source files of a plan. -/
def scanProject (fs : FileSystem) (plan : Plan) : Except Failure (List FileScan) :=
  match sourceFiles fs plan with
  | .error e => .error e
  | .ok files => scanFiles fs plan.maxFileSize files

/-- The declarations of the files that were read, in order. -/
def declarationsOf (scans : List FileScan) : List Declaration :=
  scans.filterMap FileScan.declaration?

/-! ### Writing -/

/-- Makes the output directory and the missing directories above it. -/
def prepareOutput (fs : FileSystem) (dir : Path) : FileSystem × Except Failure Unit :=
  match fs.makeDirectories dir with
  | (fs, .ok ()) => (fs, .ok ())
  | (fs, .error e) => (fs, .error (.createOutput dir e))

/-- Writes a document to the output directory, over a file of its name. -/
def writeDocument (fs : FileSystem) (dir : Path) (doc : Document) :
    Except Failure (FileSystem × Path) :=
  let p := Path.join dir doc.fileName
  match fs.writeFile p (Text.toUtf8 doc.content) with
  | .ok fs => .ok (fs, p)
  | .error e => .error (.writeDocument p e)

/-- How far documents have been written. -/
structure Writing where
  disk : FileSystem
  /-- The paths written, in order. -/
  written : List Path
  failure : Option Failure

/-- Writes documents in order, up to the first one that cannot be written. -/
def writeDocuments (fs : FileSystem) (dir : Path) : List Document → Writing
  | [] => ⟨fs, [], none⟩
  | doc :: rest =>
    match writeDocument fs dir doc with
    | .error e => ⟨fs, [], some e⟩
    | .ok (fs, p) =>
      let w := writeDocuments fs dir rest
      { w with written := p :: w.written }

/-! ### A run -/

/-- What is reported during a run. -/
inductive Event where
  /-- Source files with the extension are going to be read. -/
  | scanStarted (extension : Text)
  /-- The source files have been read. -/
  | scanFinished (declarations : Nat)
  /-- The documents are going to be written. -/
  | generateStarted
  /-- A document has been written. -/
  | documentWritten (path : Path)
  deriving DecidableEq, Repr

/-- The result of a run that succeeded. -/
structure Report where
  declarations : Nat
  /-- The paths written, in order. -/
  written : List Path
  /-- The output directory without links. -/
  outputDir : Path
  skipped : List Skipped
  deriving DecidableEq, Repr

/-- A run: its result, its events, and the file system after it. -/
structure Run where
  result : Except Failure Report
  events : List Event
  disk : FileSystem

/-- Generates the documentation of a plan. -/
def generate (fs : FileSystem) (plan : Plan) : Run :=
  let started := [Event.scanStarted plan.extension]
  match scanProject fs plan with
  | .error e => ⟨.error e, started, fs⟩
  | .ok scans =>
    let declarations := declarationsOf scans
    let scanned := started ++ [.scanFinished declarations.length, .generateStarted]
    match prepareOutput fs plan.outputDir with
    | (fs, .error e) => ⟨.error e, scanned, fs⟩
    | (fs, .ok ()) =>
      let w := writeDocuments fs plan.outputDir (Page.documents declarations)
      let events := scanned ++ w.written.map .documentWritten
      match w.failure with
      | some e => ⟨.error e, events, w.disk⟩
      | none =>
        let outputDir := (w.disk.canonicalPath? plan.outputDir).getD plan.outputDir
        ⟨.ok ⟨declarations.length, w.written, outputDir, scans.filterMap FileScan.skipped?⟩, events,
          w.disk⟩

end DocPages
