import DocPages.FileSystem.Basic
import Mathlib.Tactic.Common

/-!
# The way of a path

`follow` goes along the names of a path step by step. `Way` holds the steps of a path that leads
somewhere, one constructor for each kind of step, so that what holds of every step holds of every
path by induction.

Main statements: a path leads to a place exactly when it has a way there (`follow_eq_ok_iff`), and a
way through more names goes through the directory that the first ones lead to
(`Way.exists_of_append`, `Way.follow_append`).
-/

namespace DocPages

namespace FileSystem

/-- The name leads neither nowhere nor back up. -/
structure IsProper (name : Text) : Prop where
  ne_gap : ¬ (name = [] ∨ name = ['.'])
  ne_up : name ≠ ['.', '.']

/-- The name, with `rest` behind it, asks for an entry of a directory. -/
structure IsEntryName (aim : Aim) (name : Text) (rest : List Text) : Prop extends
    IsProper name where
  fits : Text.byteSize name ≤ maxNameLength
  last : ¬ (aim = .write ∧ rest ≠ [] ∧ rest.all List.isEmpty)

/-- The names lead from a location to a place, through at most so many links. -/
inductive Way (fs : FileSystem) (aim : Aim) : Nat → Location → List Text → Place → Prop
  | directory {links here} (h : fs.node? here = some .directory) :
      Way fs aim links here [] (.directory here)
  | file {links here c} (h : fs.node? here = some (.file c)) :
      Way fs aim links here [] (.file here c)
  | stay {links here name rest place} (h : fs.node? here = some .directory)
      (hn : name = [] ∨ name = ['.']) (way : Way fs aim links here rest place) :
      Way fs aim links here (name :: rest) place
  | up {links here rest place} (h : fs.node? here = some .directory)
      (way : Way fs aim links here.dropLast rest place) :
      Way fs aim links here (['.', '.'] :: rest) place
  | vacant {links here name rest} (h : fs.node? here = some .directory)
      (hn : IsEntryName aim name rest) (he : fs.node? (here ++ [name]) = none)
      (hr : rest.all List.isEmpty) :
      Way fs aim links here (name :: rest) (.vacant (here ++ [name]))
  | link {links here name rest target place} (h : fs.node? here = some .directory)
      (hn : IsEntryName aim name rest) (ht : fs.node? (here ++ [name]) = some (.link target))
      (way : Way fs aim links (startOf here target) (target.splitOn '/' ++ rest) place) :
      Way fs aim (links + 1) here (name :: rest) place
  | down {links here name rest node place} (h : fs.node? here = some .directory)
      (hn : IsEntryName aim name rest) (hd : fs.node? (here ++ [name]) = some node)
      (hl : ∀ target, node ≠ .link target) (way : Way fs aim links (here ++ [name]) rest place) :
      Way fs aim links here (name :: rest) place

variable {fs : FileSystem} {aim : Aim} {links : Nat} {here : Location} {names : List Text}
  {place : Place}

theorem way_of_follow (h : fs.follow aim links here names = .ok place) :
    Way fs aim links here names place := by
  fun_induction follow fs aim links here names with
  | case1 links here hd =>
    cases h
    exact .directory hd
  | case2 links here hd name rest hn ih => exact .stay hd hn (ih h)
  | case3 links here hd rest hn ih => exact .up hd (ih h)
  | case4 => contradiction
  | case5 => contradiction
  | case6 links here hd name rest hg hu hw hs hnode hr =>
    cases h
    exact .vacant hd ⟨⟨hg, hu⟩, Nat.le_of_not_lt hs, hw⟩ hnode hr
  | case7 => contradiction
  | case8 => contradiction
  | case9 here hd name rest hg hu hw hs target hnode links ih =>
    exact .link hd ⟨⟨hg, hu⟩, Nat.le_of_not_lt hs, hw⟩ hnode (ih h)
  | case10 links here hd name rest hg hu hw hs node hl hnode ih =>
    exact .down hd ⟨⟨hg, hu⟩, Nat.le_of_not_lt hs, hw⟩ hnode hl (ih h)
  | case11 links here c hc =>
    cases h
    exact .file hc
  | case12 => contradiction
  | case13 => contradiction

theorem Way.follow_eq (way : Way fs aim links here names place) :
    fs.follow aim links here names = .ok place := by
  induction way with
  | directory h => rw [follow]; simp [h]
  | file h => rw [follow]; simp [h]
  | stay h hn _ ih => rw [follow]; simp [h, hn, ih]
  | up h _ ih => rw [follow]; simp [h, ih]
  | vacant h hn he hr =>
    have hfits := Nat.not_lt.2 hn.fits
    rw [follow]
    simp only [h, if_neg hn.ne_gap, if_neg hn.ne_up, if_neg hn.last, if_neg hfits, he, if_pos hr]
  | link h hn ht _ ih =>
    have hfits := Nat.not_lt.2 hn.fits
    rw [follow]
    simp only [h, if_neg hn.ne_gap, if_neg hn.ne_up, if_neg hn.last, if_neg hfits, ht, ih]
  | @down links here name rest node place h hn hd hl _ ih =>
    have hfits := Nat.not_lt.2 hn.fits
    rw [follow]
    simp only [h, if_neg hn.ne_gap, if_neg hn.ne_up, if_neg hn.last, if_neg hfits, hd]
    cases node with
    | link target => exact absurd rfl (hl target)
    | file c => exact ih
    | directory => exact ih

/-- A path leads to a place exactly when it has a way there. -/
theorem follow_eq_ok_iff :
    fs.follow aim links here names = .ok place ↔ Way fs aim links here names place :=
  ⟨way_of_follow, Way.follow_eq⟩

theorem resolve_eq_ok_iff {p : Path} :
    fs.resolve aim p = .ok place ↔ pathFault? p = none ∧
      Way fs aim maxLinks (startOf fs.workingDirectory p) (p.splitOn '/') place := by
  unfold resolve
  cases pathFault? p with
  | none => simp [follow_eq_ok_iff]
  | some e => simp

theorem directoryAt?_eq_some_iff {p : Path} {loc : Location} :
    fs.directoryAt? p = some loc ↔ fs.resolve .find p = .ok (.directory loc) := by
  unfold directoryAt?
  split
  · next h => simp [h]
  · next h =>
    constructor
    · intro hc
      contradiction
    · intro hc
      exact absurd hc (h loc)

theorem isDirectory_iff {p : Path} :
    fs.isDirectory p ↔ ∃ loc, fs.resolve .find p = .ok (.directory loc) := by
  rw [isDirectory, Option.isSome_iff_exists]
  simp only [directoryAt?_eq_some_iff]

theorem isFile_iff {p : Path} :
    fs.isFile p ↔ ∃ loc c, fs.resolve .find p = .ok (.file loc c) := by
  unfold isFile
  split
  · next loc c hres => simp [hres]
  · next hne =>
    simp only [Bool.false_eq_true, false_iff, not_exists]
    exact hne

/-- Below the root, what there is at a location is an entry. -/
theorem node?_concat (fs : FileSystem) (loc : Location) (name : Text) :
    fs.node? (loc ++ [name]) = fs.entries.lookup (loc ++ [name]) := by
  cases loc <;> rfl

theorem isSome_node?_iff {loc : Location} {name : Text} :
    (fs.node? (loc ++ [name])).isSome ↔ ∃ entry ∈ fs.entries, entry.1 = loc ++ [name] := by
  rw [node?_concat, List.lookup_isSome_iff]
  refine exists_congr fun entry => and_congr_right fun _ => ?_
  rw [beq_iff_eq, eq_comm]

/-! ### The end of a way -/

/-- What the place says about its location is so. -/
def Holds (fs : FileSystem) : Place → Prop
  | .file loc c => fs.node? loc = some (.file c)
  | .directory loc => fs.node? loc = some .directory
  | .vacant loc => fs.node? loc = none

theorem Way.holds (way : Way fs aim links here names place) : fs.Holds place := by
  induction way with
  | directory h => exact h
  | file h => exact h
  | vacant _ _ he _ => exact he
  | stay _ _ _ ih => exact ih
  | up _ _ ih => exact ih
  | link _ _ _ _ ih => exact ih
  | down _ _ _ _ _ ih => exact ih

/-! ### Files at the end of a way -/

/-- The location of the file that a path leads to. -/
def fileAt? (fs : FileSystem) (p : Path) : Option Location :=
  match fs.resolve .find p with
  | .ok (.file loc _) => some loc
  | _ => none

section FileAt

variable {p q : Path} {loc : Location} {c : Bytes}

theorem fileAt?_eq (h : fs.resolve .find p = .ok (.file loc c)) : fs.fileAt? p = some loc := by
  rw [fileAt?, h]

theorem resolve_of_fileAt? (h : fs.fileAt? p = some loc) :
    ∃ c, fs.resolve .find p = .ok (.file loc c) ∧ fs.node? loc = some (.file c) := by
  unfold fileAt? at h
  split at h
  · next l c hres =>
    cases h
    exact ⟨c, hres, (resolve_eq_ok_iff.1 hres).2.holds⟩
  · contradiction

theorem readFile_eq (h : fs.resolve .find p = .ok (.file loc c)) : fs.readFile p = .ok c := by
  rw [readFile, h]

theorem size_eq (h : fs.resolve .find p = .ok (.file loc c)) : fs.size p = .ok c.length := by
  rw [size, h]

theorem resolve_of_readFile (h : fs.readFile p = .ok c) :
    ∃ loc, fs.resolve .find p = .ok (.file loc c) := by
  unfold readFile at h
  split at h
  · next loc c' hr =>
    cases h
    exact ⟨loc, hr⟩
  · contradiction
  · contradiction
  · contradiction

/-- Paths that lead to one file lead to one content. -/
theorem readFile_congr (h : fs.fileAt? p = some loc) (hq : fs.fileAt? q = some loc) :
    fs.readFile p = fs.readFile q := by
  obtain ⟨c, hres, hnode⟩ := resolve_of_fileAt? h
  obtain ⟨d, hres', hnode'⟩ := resolve_of_fileAt? hq
  have hcd : c = d := Node.file.inj (Option.some.inj (hnode.symm.trans hnode'))
  rw [readFile_eq hres, readFile_eq hres', hcd]

end FileAt

/-! ### The last name of a way -/

section LastName

variable {name : Text} {loc : Location} {c : Bytes}

theorem IsEntryName.of_find {rest : List Text} (h : IsEntryName .find name rest)
    (rest' : List Text) : IsEntryName .find name rest' :=
  ⟨h.toIsProper, h.fits, fun hl => absurd hl.1 (by decide)⟩

/-- A way through more names goes through the directory that the names before them lead to. -/
theorem Way.exists_of_append {rest : List Text} (hrest : rest ≠ []) (hv : ∀ v, place ≠ .vacant v)
    (way : Way fs .find links here (names ++ rest) place) :
    ∃ links' out, Way fs .find links here names (.directory out) ∧
      Way fs .find links' out rest place := by
  generalize hns : names ++ rest = ns at way
  induction way generalizing names with
  | directory => exact absurd (List.append_eq_nil_iff.1 hns).2 hrest
  | file => exact absurd (List.append_eq_nil_iff.1 hns).2 hrest
  | vacant => exact absurd rfl (hv _)
  | @stay links here n rest' place h hn way ih =>
    cases names with
    | nil =>
      obtain rfl : rest = n :: rest' := hns
      exact ⟨links, here, .directory h, .stay h hn way⟩
    | cons m names =>
      simp only [List.cons_append, List.cons.injEq] at hns
      obtain ⟨links', out, hout, hlast⟩ := ih hv hns.2
      exact ⟨links', out, hns.1 ▸ .stay h hn hout, hlast⟩
  | @up links here rest' place h way ih =>
    cases names with
    | nil =>
      obtain rfl : rest = ['.', '.'] :: rest' := hns
      exact ⟨links, here, .directory h, .up h way⟩
    | cons m names =>
      simp only [List.cons_append, List.cons.injEq] at hns
      obtain ⟨links', out, hout, hlast⟩ := ih hv hns.2
      exact ⟨links', out, hns.1 ▸ .up h hout, hlast⟩
  | @link links here n rest' target place h hn ht way ih =>
    cases names with
    | nil =>
      obtain rfl : rest = n :: rest' := hns
      exact ⟨links + 1, here, .directory h, .link h hn ht way⟩
    | cons m names =>
      simp only [List.cons_append, List.cons.injEq] at hns
      have hrest' : target.splitOn '/' ++ names ++ rest = target.splitOn '/' ++ rest' := by
        rw [List.append_assoc, hns.2]
      -- The names of the target come first, so the whole way still ends with the same names.
      obtain ⟨links', out, hout, hlast⟩ := ih hv hrest'
      exact ⟨links', out, hns.1 ▸ .link h (hn.of_find names) ht hout, hlast⟩
  | @down links here n rest' node place h hn hd hl way ih =>
    cases names with
    | nil =>
      obtain rfl : rest = n :: rest' := hns
      exact ⟨links, here, .directory h, .down h hn hd hl way⟩
    | cons m names =>
      simp only [List.cons_append, List.cons.injEq] at hns
      obtain ⟨links', out, hout, hlast⟩ := ih hv hns.2
      exact ⟨links', out, hns.1 ▸ .down h (hn.of_find names) hd hl hout, hlast⟩

/-- Behind names that lead to a directory, a path goes on from there. -/
theorem Way.follow_append {out : Location} (way : Way fs .find links here names (.directory out)) :
    ∃ links', ∀ rest, fs.follow .find links here (names ++ rest) =
      fs.follow .find links' out rest := by
  generalize hp : Place.directory out = place at way
  induction way with
  | directory h =>
    cases hp
    exact ⟨_, fun rest => rfl⟩
  | file => contradiction
  | vacant => contradiction
  | stay h hn _ ih =>
    obtain ⟨links', heq⟩ := ih hp
    refine ⟨links', fun rest => ?_⟩
    rw [List.cons_append, follow]
    simp only [h, if_pos hn, heq]
  | up h _ ih =>
    obtain ⟨links', heq⟩ := ih hp
    refine ⟨links', fun rest => ?_⟩
    rw [List.cons_append, follow]
    simp [h, heq]
  | @link links here name names target place h hn ht _ ih =>
    obtain ⟨links', heq⟩ := ih hp
    refine ⟨links', fun rest => ?_⟩
    have hfits := Nat.not_lt.2 hn.fits
    rw [List.cons_append, follow]
    simp only [h, if_neg hn.ne_gap, if_neg hn.ne_up, reduceCtorEq, false_and, if_false,
      if_neg hfits, ht, ← List.append_assoc, heq]
  | @down links here name names node place h hn hd hl _ ih =>
    obtain ⟨links', heq⟩ := ih hp
    refine ⟨links', fun rest => ?_⟩
    have hfits := Nat.not_lt.2 hn.fits
    rw [List.cons_append, follow]
    simp only [h, if_neg hn.ne_gap, if_neg hn.ne_up, reduceCtorEq, false_and, if_false,
      if_neg hfits, hd]
    cases node with
    | link target => exact absurd rfl (hl target)
    | file c => exact heq rest
    | directory => exact heq rest

/-- Where no link is in the way, a name leads from a directory to the entry of that name. -/
theorem Way.eq_of_singleton (hname : IsProper name)
    (hlink : ∀ target, fs.node? (here ++ [name]) ≠ some (.link target))
    (way : Way fs aim links here [name] (.file loc c)) : loc = here ++ [name] := by
  cases way with
  | stay _ hn _ => exact absurd hn hname.ne_gap
  | up => exact absurd rfl hname.ne_up
  | link _ _ ht _ => exact absurd ht (hlink _)
  | down _ _ _ _ way =>
    cases way
    rfl

end LastName

end FileSystem

/-! ### The entries of a directory by path -/

namespace Path

variable {name : Text}

theorem not_isAbsolute (h : '/' ∉ name) : isAbsolute name = false := by
  cases name with
  | nil => rfl
  | cons c cs =>
    have hne : c ≠ '/' := fun he => h (he ▸ List.mem_cons_self)
    simp [isAbsolute, hne]

/-- Behind a directory, a name without slashes is the last one on the path. -/
theorem exists_splitOn_join (dir : Path) : ∃ names : List Text,
    (dir.splitOn '/' = names ∨ dir.splitOn '/' = names ++ [[]]) ∧
      ∀ name : Text, '/' ∉ name → (join dir name).splitOn '/' = names ++ [name] := by
  by_cases hnil : dir = []
  · refine ⟨[], Or.inr (by rw [hnil]; rfl), fun name hn => ?_⟩
    rw [hnil, join, if_pos (by simp), List.splitOn_eq_singleton hn, List.nil_append]
  have hempty : dir.isEmpty = false := by simpa using hnil
  by_cases hlast : dir.getLast? = some '/'
  · obtain ⟨base, rfl⟩ := List.getLast?_eq_some_iff.1 hlast
    refine ⟨base.splitOn '/', Or.inr ?_, fun name hn => ?_⟩
    · rw [List.splitOn_append_cons_self, List.splitOn_nil]
    · rw [join, if_neg (by simp [not_isAbsolute hn]), if_pos (by simp), List.append_assoc,
        List.singleton_append, List.splitOn_append_cons_self, List.splitOn_eq_singleton hn]
  · refine ⟨dir.splitOn '/', Or.inl rfl, fun name hn => ?_⟩
    rw [join, if_neg (by simp [not_isAbsolute hn, hempty]), if_neg (by simp [hlast]),
      List.splitOn_append_cons_self, List.splitOn_eq_singleton hn]

theorem isAbsolute_join (dir : Path) (h : '/' ∉ name) :
    isAbsolute (join dir name) = isAbsolute dir := by
  unfold join
  cases dir with
  | nil =>
    rw [if_pos (by simp)]
    exact not_isAbsolute h
  | cons c cs =>
    rw [if_neg (by simp [not_isAbsolute h])]
    split <;> rfl

end Path

namespace FileSystem

/-- All entries of a directory that are no links lie at one location, behind their names. -/
theorem exists_location_join (fs : FileSystem) (dir : Path) : ∃ out : Location,
    ∀ (name : Text) (loc : Location) (c : Bytes), IsProper name → '/' ∉ name →
      (∀ target, fs.node? (out ++ [name]) ≠ some (.link target)) →
      fs.resolve .find (Path.join dir name) = .ok (.file loc c) → loc = out ++ [name] := by
  obtain ⟨names, -, hnames⟩ := Path.exists_splitOn_join dir
  have hway {name : Text} {loc : Location} {c : Bytes} (hslash : '/' ∉ name)
      (h : fs.resolve .find (Path.join dir name) = .ok (.file loc c)) :
      ∃ links out, Way fs .find maxLinks (startOf fs.workingDirectory dir) names
        (.directory out) ∧ Way fs .find links out [name] (.file loc c) := by
    have hstart : startOf fs.workingDirectory (Path.join dir name) =
        startOf fs.workingDirectory dir := by
      rw [startOf, startOf, Path.isAbsolute_join dir hslash]
    have way := (resolve_eq_ok_iff.1 h).2
    rw [hstart, hnames name hslash] at way
    obtain ⟨links, out, hout, hlast⟩ := way.exists_of_append (List.cons_ne_nil _ _) (by simp)
    exact ⟨links, out, hout, hlast⟩
  by_cases hdir : ∃ out, Way fs .find maxLinks (startOf fs.workingDirectory dir) names
      (.directory out)
  · obtain ⟨out, hout⟩ := hdir
    refine ⟨out, fun name loc c hproper hslash hlink h => ?_⟩
    obtain ⟨links, out', hout', hlast⟩ := hway hslash h
    have heq : Place.directory out' = .directory out :=
      Except.ok.inj (hout'.follow_eq.symm.trans hout.follow_eq)
    cases heq
    exact hlast.eq_of_singleton hproper hlink
  · refine ⟨[], fun name loc c hproper hslash _ h => ?_⟩
    obtain ⟨_, out', hout', _⟩ := hway hslash h
    exact absurd ⟨out', hout'⟩ hdir

end FileSystem

end DocPages
