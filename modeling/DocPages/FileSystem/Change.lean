import DocPages.FileSystem.Basic

/-!
# Changing a file system

`put` says what there is at a location from now on, `erase` takes a location away with everything
below it. On these rest the operations that a run needs: `makeDirectory` makes one directory,
`makeDirectories` also the missing ones above it, and `writeFile` makes a file or replaces its
content, at the end of links if there are any. An operation that fails says why; `makeDirectories`
may have made some directories before.

Left out are permissions, so that every directory can be added to and every file replaced, hard links,
so that a change at one location is seen at no other, and a write that fails after the file was
opened: `writeFile` either writes the whole content or changes nothing.

`addFile`, `addLink` and `remove` build and change a tree by hand, `listing` shows one.
-/

namespace DocPages

namespace FileSystem

/-! ### Entries -/

/-- Replaces the node at a location, or adds the location at the end. -/
def putEntry (loc : Location) (node : Node) : List (Location × Node) → List (Location × Node)
  | [] => [(loc, node)]
  | (l, n) :: rest => if l = loc then (loc, node) :: rest else (l, n) :: putEntry loc node rest

theorem mem_map_putEntry {loc l : Location} {node : Node} {es : List (Location × Node)} :
    l ∈ (putEntry loc node es).map Prod.fst ↔ l = loc ∨ l ∈ es.map Prod.fst := by
  induction es with
  | nil => simp [putEntry]
  | cons e es ih =>
    obtain ⟨l', n⟩ := e
    unfold putEntry
    split
    · next h => subst h; simp
    · simp only [List.map_cons, List.mem_cons, ih]
      exact or_left_comm

theorem nodup_map_putEntry {loc : Location} {node : Node} {es : List (Location × Node)}
    (h : (es.map Prod.fst).Nodup) : ((putEntry loc node es).map Prod.fst).Nodup := by
  induction es with
  | nil => simp [putEntry]
  | cons e es ih =>
    obtain ⟨l', n⟩ := e
    rw [List.map_cons, List.nodup_cons] at h
    unfold putEntry
    split
    · next hl => subst hl; simpa using h
    · next hl =>
      rw [List.map_cons, List.nodup_cons, mem_map_putEntry]
      exact ⟨fun hm => hm.elim hl h.1, ih h.2⟩

theorem lookup_putEntry (loc l : Location) (node : Node) (es : List (Location × Node)) :
    (putEntry loc node es).lookup l = if l = loc then some node else es.lookup l := by
  induction es with
  | nil => by_cases h : l = loc <;> simp [putEntry, h, List.lookup_cons, beq_eq_false_iff_ne.2]
  | cons e es ih =>
    obtain ⟨l', n⟩ := e
    unfold putEntry
    by_cases hl : l' = loc
    · subst hl
      by_cases h : l = l' <;> simp [h, List.lookup_cons, beq_eq_false_iff_ne.2]
    · by_cases h : l = l'
      · subst h; simp [hl]
      · simp [hl, List.lookup_cons, beq_eq_false_iff_ne.2 h, ih]

/-- The file system with a node at a location. -/
def put (fs : FileSystem) (loc : Location) (node : Node) : FileSystem :=
  { fs with entries := putEntry loc node fs.entries, distinct := nodup_map_putEntry fs.distinct }

/-- The file system without a location and everything below it. -/
def erase (fs : FileSystem) (loc : Location) : FileSystem :=
  { fs with
    entries := fs.entries.filter fun e => !loc.isPrefixOf e.1
    distinct := fs.distinct.sublist (List.filter_sublist.map Prod.fst) }

theorem node?_put (fs : FileSystem) (loc l : Location) (node : Node) (h : loc ≠ []) :
    (fs.put loc node).node? l = if l = loc then some node else fs.node? l := by
  cases l with
  | nil => simp [node?, Ne.symm h]
  | cons n l => simp [node?, put, lookup_putEntry]

/-! ### Directories -/

/-- The names on a path without empty ones at its end. -/
def trimmedNames (p : Path) : List Text :=
  ((p.splitOn '/').reverse.dropWhile List.isEmpty).reverse

/-- The directory in which the last of some names lies. -/
def parentOf (fs : FileSystem) (p : Path) (names : List Text) : Except SystemError Location :=
  match fs.follow .find maxLinks (startOf fs.workingDirectory p) names.dropLast with
  | .ok (.directory loc) => .ok loc
  | .ok (.file _ _) => .error .notADirectory
  | .ok (.vacant _) => .error .notFound
  | .error e => .error e

/-- The place of the last name on a path, whatever is there. Links on the way to it are followed. -/
def placeOf (fs : FileSystem) (p : Path) : Except SystemError Location :=
  match pathFault? p with
  | some e => .error e
  | none =>
    let names := trimmedNames p
    match fs.parentOf p names with
    | .error e => .error e
    | .ok loc =>
      let name := names.getLast?.getD []
      if name = [] ∨ name = ['.'] ∨ name = ['.', '.'] then .error .alreadyExists
      else if maxNameLength < Text.byteSize name then .error .nameTooLong
      else .ok (loc ++ [name])

/-- Makes a directory. -/
def makeDirectory (fs : FileSystem) (p : Path) : Except SystemError FileSystem :=
  match fs.placeOf p with
  | .error e => .error e
  | .ok loc => if (fs.node? loc).isSome then .error .alreadyExists else .ok (fs.put loc .directory)

/-- A path and the directories above it, up to the one that a relative path starts from. -/
def pathsUp (p : Path) : List Path :=
  let names := Path.components p
  let parents := (List.range names.length).drop 1
  let start := if Path.isAbsolute p then ['/'] else []
  if names.isEmpty then []
  else p :: (parents.reverse.map fun n => start ++ List.intercalate ['/'] (names.take n))

/-- Makes a directory that may be there already. -/
def ensureDirectory (fs : FileSystem) (p : Path) : Except SystemError FileSystem :=
  match fs.makeDirectory p with
  | .ok fs => .ok fs
  | .error e => if e = .alreadyExists && fs.isDirectory p then .ok fs else .error e

/-- Makes the first of some paths a directory, given the paths of the directories above it, from the
next one up. These are made where they are missing. -/
def makeAll (fs : FileSystem) : List Path → FileSystem × Except SystemError Unit
  | [] => (fs, .ok ())
  | p :: parents =>
    match fs.ensureDirectory p with
    | .ok fs => (fs, .ok ())
    | .error e =>
      if e = .notFound then
        match makeAll fs parents with
        | (fs, .error e) => (fs, .error e)
        | (fs, .ok ()) =>
          match fs.ensureDirectory p with
          | .ok fs => (fs, .ok ())
          | .error e => (fs, .error e)
      else (fs, .error e)

/-- Makes a directory and the missing ones above it. -/
def makeDirectories (fs : FileSystem) (p : Path) : FileSystem × Except SystemError Unit :=
  fs.makeAll (pathsUp p)

/-! ### Files -/

/-- Writes a file. What was in it is lost. -/
def writeFile (fs : FileSystem) (p : Path) (content : Bytes) : Except SystemError FileSystem :=
  match fs.resolve .write p with
  | .ok (.file loc _) | .ok (.vacant loc) => .ok (fs.put loc (.file content))
  | .ok (.directory _) => .error .isADirectory
  | .error e => .error e

/-! ### Trees by hand -/

/-- The path of the directory above the last name on a path. -/
def directoryPart (p : Path) : Path :=
  let names := (trimmedNames p).dropLast
  if names.isEmpty then ['.'] else List.intercalate ['/'] names ++ ['/']

/-- Puts a file at a path, with the directories above it. -/
def addFile (fs : FileSystem) (p : Path) (content : Bytes) : Except SystemError FileSystem :=
  (fs.makeDirectories (directoryPart p)).1.writeFile p content

/-- Puts a link at a path, with the directories above it. -/
def addLink (fs : FileSystem) (p target : Path) : Except SystemError FileSystem :=
  let made := (fs.makeDirectories (directoryPart p)).1
  match made.placeOf p with
  | .error e => .error e
  | .ok loc =>
    if (made.node? loc).isSome then .error .alreadyExists else .ok (made.put loc (.link target))

/-- Removes a file, a link or a directory with everything in it. -/
def remove (fs : FileSystem) (p : Path) : Except SystemError FileSystem :=
  match fs.placeOf p with
  | .error e => .error e
  | .ok loc => if (fs.node? loc).isSome then .ok (fs.erase loc) else .error .notFound

/-- How an entry is shown: with a slash behind directories and an at sign behind links. -/
def shownEntry (loc : Location) (node : Node) : Path :=
  List.intercalate ['/'] loc ++
    match node with
    | .file _ => []
    | .directory => ['/']
    | .link _ => ['@']

/-- Everything below a directory, as seen from it, in the order of the shown paths. -/
def listing (fs : FileSystem) (loc : Location) : List Path :=
  (fs.entries.filterMap fun e =>
    (loc.isPrefixOf? e.1).bind fun rest =>
      if rest = [] then none else some (shownEntry rest e.2)).mergeSort Text.le

end FileSystem

end DocPages
