import DocPages.Exclude.Rule
import DocPages.FileSystem.Basic
import DocPages.Settings

/-!
# Discovery

The source files of a project: the files below the source directory that have the right extension
and are not left out, in the order of their paths. `walk` visits directories depth first, each one's
entries in the order in which it lists them. A directory that is left out is not entered. One that
is met a second time, by whatever path, ends the walk, so every step into a directory uses up one
that has not been entered, and the walk ends.

A directory that has been entered is known again by its location, which stands for its canonical
path. A path that leads to a directory always has a canonical one
(`FileSystem.canonicalPath?_of_directoryAt?`), so the walk has no rule for a directory that is only
known by the path by which it was met.
-/

namespace DocPages

/-- Whether an extension is the one looked for, up to the case of ASCII letters. -/
def hasExtension (extension : Text) (p : Path) : Bool :=
  (Path.extension? p).any (Text.sameIgnoringCase extension)

namespace FileSystem

/-- The directories that are not in a list of visited ones. -/
def unvisited (fs : FileSystem) (visited : List Location) : List Location :=
  fs.directories.filter fun loc => loc ∉ visited

theorem length_unvisited_lt {fs : FileSystem} {visited : List Location} {loc : Location}
    (h : loc ∈ fs.directories) (hv : loc ∉ visited) :
    (fs.unvisited (loc :: visited)).length < (fs.unvisited visited).length := by
  have hsub : fs.unvisited (loc :: visited) =
      (fs.unvisited visited).filter fun l => l ≠ loc := by
    simp only [unvisited, List.filter_filter]
    congr 1
    funext l
    simp [List.mem_cons, not_or]
  rw [hsub]
  exact List.length_filter_lt_length_iff_exists.2
    ⟨loc, List.mem_filter.2 ⟨h, by simpa using hv⟩, by simp⟩

/-- The paths of the entries of a directory, which has the path `p`, as it lists them. -/
def childPaths (fs : FileSystem) (p : Path) (loc : Location) : List Path :=
  (fs.children loc).map (Path.join p)

/-- What a walk has come across. -/
structure Walk where
  /-- The directories entered. -/
  entered : List Location
  /-- The wanted files found, in the order in which they were found. -/
  found : List Path
  /-- The path by which a directory was met again, which ends the walk. -/
  cycle : Option Path
  deriving DecidableEq, Repr

/-- Visits the paths `todo` in order. `excluded` tells which paths are left out, given whether they
lead to a directory, and `wanted` which files are collected. -/
def walk (fs : FileSystem) (wanted : Path → Bool) (excluded : Path → Bool → Bool) (w : Walk)
    (todo : List Path) : Walk :=
  match todo with
  | [] => w
  | p :: rest =>
    match _hp : fs.directoryAt? p with
    | some loc =>
      if excluded p true then walk fs wanted excluded w rest
      else if _hv : loc ∈ w.entered then { w with cycle := some p }
      else
        walk fs wanted excluded { w with entered := loc :: w.entered }
          (fs.childPaths p loc ++ rest)
    | none =>
      if !excluded p false && fs.isFile p && wanted p then
        walk fs wanted excluded { w with found := w.found ++ [p] } rest
      else walk fs wanted excluded w rest
termination_by ((fs.unvisited w.entered).length, todo.length)
decreasing_by
  · exact Prod.Lex.right _ (by simp)
  · exact Prod.Lex.left _ _ (length_unvisited_lt (mem_directories_of_directoryAt? _hp) _hv)
  · exact Prod.Lex.right _ (by simp)
  · exact Prod.Lex.right _ (by simp)

/-- The walk through the directory at `loc`, which has the path `root`. -/
def walkFrom (fs : FileSystem) (wanted : Path → Bool) (excluded : Path → Bool → Bool) (root : Path)
    (loc : Location) : Walk :=
  fs.walk wanted excluded ⟨[loc], [], none⟩ (fs.childPaths root loc)

/-- The wanted files below the directory `root`, in the order of their paths. -/
def filesBelow (fs : FileSystem) (wanted : Path → Bool) (excluded : Path → Bool → Bool)
    (root : Path) : Except Failure (List Path) :=
  match fs.directoryAt? root with
  | none => .error (.missingSource root)
  | some loc =>
    let w := fs.walkFrom wanted excluded root loc
    match w.cycle with
    | some p => .error (.linkCycle p)
    | none => .ok (w.found.mergeSort Path.le)

end FileSystem

/-- The source files of a plan. -/
def sourceFiles (fs : FileSystem) (plan : Plan) : Except Failure (List Path) :=
  if fs.isDirectory plan.sourceDir then
    match Rule.ofPatterns plan.exclude with
    | .error e => .error e
    | .ok rules =>
      fs.filesBelow (hasExtension plan.extension) (excludes rules plan.sourceDir) plan.sourceDir
  else .error (.missingSource plan.sourceDir)

end DocPages
