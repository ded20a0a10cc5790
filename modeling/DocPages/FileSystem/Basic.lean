import DocPages.Path
import DocPages.SystemError
import DocPages.Text.Utf8

/-!
# File systems

A file system is a finite list of locations, each with a file, a directory or a symbolic link. A
location is the row of names that leads to it from the root directory, without links. The order of
the list is the order in which directories list their entries (`children`), and no location occurs
twice.

`resolve` follows a path, through links, to the file or directory it leads to, or to a place where
one could be made. The other questions about a path (`directoryAt?`, `isFile`, `size`, `readFile`,
`canonicalPath?`) go through it.

What can go wrong is what the path and the locations on it decide. Left out are permissions, so
that everything that is there can be read and listed; hard links, so that two locations never
share a content; files of other kinds than those of `Node`; and failures of the medium. The canonical
path of a place is not held against `pathLimit`, and the path of the working directory is always
known. What is said of discovery and of a whole run is said within these bounds.
-/

namespace DocPages

/-- The names that lead from the root directory to a place, without links. -/
abbrev Location := List Text

/-- What there is at a location. -/
inductive Node where
  | file (content : Bytes)
  | directory
  | link (target : Path)
  deriving DecidableEq, Repr

/-- Files, directories and links, and the directory that relative paths start from. -/
structure FileSystem where
  entries : List (Location × Node)
  workingDirectory : Location
  /-- No location occurs twice. -/
  distinct : (entries.map Prod.fst).Nodup

/-- What a path is followed for. -/
inductive Aim where
  /-- To find what is there. -/
  | find
  /-- To write a file, which need not be there yet. -/
  | write
  deriving DecidableEq, Repr

/-- Where a path leads. -/
inductive Place where
  /-- To a file. -/
  | file (loc : Location) (content : Bytes)
  /-- To a directory. -/
  | directory (loc : Location)
  /-- To a missing name in a directory. -/
  | vacant (loc : Location)
  deriving DecidableEq, Repr

namespace FileSystem

/-- No files, seen from the root directory. -/
def empty : FileSystem := ⟨[], [], List.nodup_nil⟩

/-- What there is at a location. The root directory is always there. -/
def node? (fs : FileSystem) : Location → Option Node
  | [] => some .directory
  | loc => fs.entries.lookup loc

/-- The location of a listed directory. -/
def directoryOf? : Location × Node → Option Location
  | (loc, .directory) => some loc
  | _ => none

/-- The locations of all directories. -/
def directories (fs : FileSystem) : List Location := [] :: fs.entries.filterMap directoryOf?

/-- Whether a text can be the name of an entry. Other names are listed nowhere, and no path leads to
them. -/
def isName (name : Text) : Bool :=
  !name.isEmpty && name != ['.'] && name != ['.', '.'] && '/' ∉ name && '\x00' ∉ name

/-- The name of a listed entry of the directory `loc`. -/
def childName? (loc : Location) (entry : Location × Node) : Option Text :=
  if entry.1.dropLast = loc then entry.1.getLast?.filter isName else none

/-- The names in a directory, in the order in which it lists them. -/
def children (fs : FileSystem) (loc : Location) : List Text :=
  fs.entries.filterMap (childName? loc)

/-! ### Following paths -/

/-- The length in bytes that no name may exceed. -/
def maxNameLength : Nat := 255

/-- The length in bytes that a path must stay below. -/
def pathLimit : Nat := 4096

/-- How many links may be followed on a path. -/
def maxLinks : Nat := 40

/-- The location that a path starts from, when a relative one starts from `here`. -/
def startOf (here : Location) (p : Path) : Location := if Path.isAbsolute p then [] else here

/-- Follows names from the location `here`, through at most `links` links. Empty names and single
points lead nowhere, but ask for a directory. Where a file is to be written, a name with nothing but
empty ones behind it asks for a directory in vain, whatever is there. -/
def follow (fs : FileSystem) (aim : Aim) (links : Nat) (here : Location) (names : List Text) :
    Except SystemError Place :=
  match fs.node? here with
  | some .directory =>
    match names with
    | [] => .ok (.directory here)
    | name :: rest =>
      if name = [] ∨ name = ['.'] then follow fs aim links here rest
      else if name = ['.', '.'] then follow fs aim links here.dropLast rest
      else if aim = .write ∧ rest ≠ [] ∧ rest.all List.isEmpty then .error .isADirectory
      else if maxNameLength < Text.byteSize name then .error .nameTooLong
      else
        match fs.node? (here ++ [name]) with
        | none =>
          if rest.all List.isEmpty then .ok (.vacant (here ++ [name]))
          else .error .notFound
        | some (.link target) =>
          match links with
          | 0 => .error .tooManyLinks
          | links + 1 =>
            follow fs aim links (startOf here target) (target.splitOn '/' ++ rest)
        | some _ => follow fs aim links (here ++ [name]) rest
  | some (.file content) => if names = [] then .ok (.file here content) else .error .notADirectory
  | _ => .error .notFound
termination_by (links, names.length)

/-- What is wrong with a path wherever it leads. -/
def pathFault? (p : Path) : Option SystemError :=
  if p = [] then some .notFound
  else if '\x00' ∈ p then some .nulInPath
  else if pathLimit ≤ Text.byteSize p then some .nameTooLong
  else none

/-- Follows a path from the root or the working directory. -/
def resolve (fs : FileSystem) (aim : Aim) (p : Path) : Except SystemError Place :=
  match pathFault? p with
  | some e => .error e
  | none => fs.follow aim maxLinks (startOf fs.workingDirectory p) (p.splitOn '/')

/-! ### Questions about paths -/

/-- The location of the directory that a path leads to. -/
def directoryAt? (fs : FileSystem) (p : Path) : Option Location :=
  match fs.resolve .find p with
  | .ok (.directory loc) => some loc
  | _ => none

/-- Whether a path leads to a directory. -/
def isDirectory (fs : FileSystem) (p : Path) : Bool := (fs.directoryAt? p).isSome

/-- Whether a path leads to a file. -/
def isFile (fs : FileSystem) (p : Path) : Bool :=
  match fs.resolve .find p with
  | .ok (.file _ _) => true
  | _ => false

/-- The size in bytes that directories have. -/
def directorySize : Nat := 4096

/-- The size of what a path leads to. -/
def size (fs : FileSystem) (p : Path) : Except SystemError Nat :=
  match fs.resolve .find p with
  | .ok (.file _ content) => .ok content.length
  | .ok (.directory _) => .ok directorySize
  | .ok (.vacant _) => .error .notFound
  | .error e => .error e

/-- The content of the file that a path leads to. -/
def readFile (fs : FileSystem) (p : Path) : Except SystemError Bytes :=
  match fs.resolve .find p with
  | .ok (.file _ content) => .ok content
  | .ok (.directory _) => .error .isADirectory
  | .ok (.vacant _) => .error .notFound
  | .error e => .error e

/-- The content of a file that has to be text. -/
def readText (fs : FileSystem) (p : Path) : Except SystemError Text :=
  match fs.readFile p with
  | .ok content =>
    match Text.ofUtf8? content with
    | some t => .ok t
    | none => .error .malformedText
  | .error e => .error e

/-- A location as an absolute path. -/
def pathOf (loc : Location) : Path := '/' :: List.intercalate ['/'] loc

/-- The absolute path without links of what a path leads to. -/
def canonicalPath? (fs : FileSystem) (p : Path) : Option Path :=
  match fs.resolve .find p with
  | .ok (.file loc _) | .ok (.directory loc) => some (pathOf loc)
  | _ => none

/-! ### First properties -/

theorem mem_directories {fs : FileSystem} {loc : Location} (h : fs.node? loc = some .directory) :
    loc ∈ fs.directories := by
  unfold node? at h
  unfold directories
  split at h
  · simp
  · refine List.mem_cons_of_mem _ (List.mem_filterMap.2 ⟨(loc, .directory), ?_, rfl⟩)
    obtain ⟨_, _, h⟩ := List.lookup_eq_some_iff.1 h
    simp [h.1]

theorem node?_of_follow {fs : FileSystem} {aim : Aim} {links : Nat} {here loc : Location}
    {names : List Text} (h : fs.follow aim links here names = .ok (.directory loc)) :
    fs.node? loc = some .directory := by
  fun_induction follow fs aim links here names <;> simp_all

theorem mem_directories_of_directoryAt? {fs : FileSystem} {p : Path} {loc : Location}
    (h : fs.directoryAt? p = some loc) : loc ∈ fs.directories := by
  apply mem_directories
  unfold directoryAt? resolve at h
  split at h
  · next h' =>
    simp only [Option.some.injEq] at h
    subst h
    split at h'
    · contradiction
    · exact node?_of_follow h'
  · simp at h

/-- A path that leads to a directory has a canonical path, so there is never need to fall back on the
path as written. -/
theorem canonicalPath?_of_directoryAt? {fs : FileSystem} {p : Path} {loc : Location}
    (h : fs.directoryAt? p = some loc) : fs.canonicalPath? p = some (pathOf loc) := by
  unfold directoryAt? at h
  split at h
  · next h' =>
    rw [Option.some.injEq] at h
    rw [canonicalPath?, h', h]
  · contradiction

end FileSystem

end DocPages
