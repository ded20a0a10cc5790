import DocPages.Proofs.Discovery.Cycle
import DocPages.Proofs.Discovery.Grow
import Mathlib

/-!
# Which files are found

The source files of a project can be said by their paths: names behind the path of the source directory,
of which all but the last lead through directories that are not left out (`IsSource`). In which order
directories list their entries does not matter, neither for what is found nor for whether a cycle ends the
walk (`Relists.filesBelow_eq`).

Main statement: when files are found, they are exactly these, in strictly increasing order
(`sourceFiles_exact`).
-/

namespace DocPages

/-- The path that the names lead to from another one. -/
def Path.below (p : Path) (names : List Text) : Path := names.foldl Path.join p

namespace FileSystem

section Source

variable (fs : FileSystem) (wanted : Path → Bool) (excluded : Path → Bool → Bool)

/-- The names lead from `root` to the wanted file at `p`, and neither it nor a directory on the way is
left out. -/
structure IsSourceBy (root : Path) (names : List Text) (p : Path) : Prop where
  path_eq : p = Path.below root names
  ne_nil : names ≠ []
  isListed : ∀ name ∈ names, IsListed name
  directories : ∀ dirs, dirs ≠ [] → dirs <+: names → dirs ≠ names →
    fs.isDirectory (Path.below root dirs) ∧ excluded (Path.below root dirs) true = false
  kept : excluded p false = false
  isFile : fs.isFile p
  wanted : wanted p

/-- The wanted file at `p` lies below `root`. -/
def IsSource (root p : Path) : Prop := ∃ names, IsSourceBy fs wanted excluded root names p

end Source

variable {fs fs' : FileSystem} {wanted : Path → Bool} {excluded : Path → Bool → Bool}
  {p q root : Path} {loc l base : Location} {name : Text} {files ps : List Path}

/-! ### From steps to names -/

theorem directoryAt?_eq_none_of_isFile (h : fs.isFile p) : fs.directoryAt? p = none := by
  obtain ⟨l, c, hres⟩ := isFile_iff.1 h
  rw [FileSystem.directoryAt?, hres]

/-- A name that leads from a directory to a file or to a directory is one of its entries. -/
theorem mem_children_of_join (hp : fs.directoryAt? p = some loc) (hn : IsListed name)
    (h : fs.isFile (Path.join p name) ∨ fs.isDirectory (Path.join p name)) :
    name ∈ fs.children loc := by
  refine mem_children_iff.2 ⟨hn, ?_⟩
  rw [Option.isSome_iff_ne_none]
  intro hnone
  have hlink : ∀ target, fs.node? (loc ++ [name]) ≠ some (.link target) := by simp [hnone]
  have hres := resolve_join hp hn hlink
  rw [placeAt, hnone] at hres
  rcases h with h | h
  · obtain ⟨l, c, h⟩ := isFile_iff.1 h
    rw [h] at hres
    split at hres <;> simp at hres
  · obtain ⟨l, h⟩ := Option.isSome_iff_exists.1 h
    rw [directoryAt?_eq_some_iff.1 h] at hres
    split at hres <;> simp at hres

/-- The first step of names is one into a directory, or they are at their end. -/
theorem isSourceBy_cons_of_leads (hn : IsListed name)
    (h : Leads fs wanted excluded (Path.join p name) q) :
    ∃ names, IsSourceBy fs wanted excluded p (name :: names) q := by
  generalize hr : Path.join p name = r at h
  induction h generalizing p name with
  | file _ hx hf hw =>
    subst hr
    refine ⟨[], rfl, List.cons_ne_nil _ _, by simpa using hn, fun dirs hne hpre hall => ?_, hx, hf, hw⟩
    rcases List.prefix_concat_iff.1 (show dirs <+: [] ++ [name] from hpre) with heq | hnil
    · exact absurd heq hall
    · exact absurd (List.prefix_nil.1 hnil) hne
  | enter hd hx hn' _ ih =>
    subst hr
    obtain ⟨names, h⟩ := ih (mem_children_iff.1 hn').1 rfl
    refine ⟨_ :: names, h.path_eq, List.cons_ne_nil _ _, List.forall_mem_cons.2 ⟨hn, h.isListed⟩,
      fun dirs hne hpre hall => ?_, h.kept, h.isFile, h.wanted⟩
    obtain ⟨d, dirs, rfl⟩ := List.exists_cons_of_ne_nil hne
    obtain ⟨hd', hpre'⟩ := List.cons_prefix_cons.1 hpre
    subst hd'
    by_cases hdirs : dirs = []
    · subst hdirs
      exact ⟨Option.isSome_iff_exists.2 ⟨_, hd⟩, hx⟩
    · exact h.directories dirs hdirs hpre' fun heq => hall (heq ▸ rfl)

theorem IsSourceBy.leads {names : List Text}
    (h : IsSourceBy fs wanted excluded p (name :: names) q) :
    Leads fs wanted excluded (Path.join p name) q := by
  induction names generalizing p name with
  | nil =>
    obtain rfl : q = Path.join p name := h.path_eq
    exact .file (directoryAt?_eq_none_of_isFile h.isFile) h.kept h.isFile h.wanted
  | cons n names ih =>
    have hstep := h.directories [name] (by simp) (by simp) (by simp)
    obtain ⟨loc, hd⟩ := Option.isSome_iff_exists.1 hstep.1
    have htail : IsSourceBy fs wanted excluded (Path.join p name) (n :: names) q := by
      refine ⟨h.path_eq, List.cons_ne_nil _ _, fun m hm => h.isListed m (List.mem_cons_of_mem _ hm),
        fun dirs hne hpre hall => ?_, h.kept, h.isFile, h.wanted⟩
      exact h.directories (name :: dirs) (List.cons_ne_nil _ _)
        (List.cons_prefix_cons.2 ⟨rfl, hpre⟩) (by simpa using hall)
    have hlisted : IsListed n := h.isListed n (by simp)
    refine .enter hd hstep.2 (mem_children_of_join hd hlisted ?_) (ih htail)
    -- The next name leads to the file itself or to a directory on the way.
    by_cases hnames : names = []
    · subst hnames
      obtain rfl : q = Path.join (Path.join p name) n := h.path_eq
      exact Or.inl h.isFile
    · right
      exact (htail.directories [n] (by simp) (by simp) (by simpa using Ne.symm hnames)).1

/-- The walk through a directory leads to the sources below it. -/
theorem exists_leads_iff (hroot : fs.directoryAt? root = some base) :
    (∃ p ∈ fs.childPaths root base, Leads fs wanted excluded p q) ↔
      IsSource fs wanted excluded root q := by
  constructor
  · rintro ⟨p, hp, h⟩
    obtain ⟨name, hn, rfl⟩ := mem_childPaths_iff.1 hp
    obtain ⟨names, h⟩ := isSourceBy_cons_of_leads (mem_children_iff.1 hn).1 h
    exact ⟨name :: names, h⟩
  · rintro ⟨names, h⟩
    obtain ⟨name, names, rfl⟩ := List.exists_cons_of_ne_nil h.ne_nil
    refine ⟨_, mem_childPaths_iff.2 ⟨name, ?_, rfl⟩, h.leads⟩
    have hlisted : IsListed name := h.isListed name List.mem_cons_self
    refine mem_children_of_join hroot hlisted ?_
    cases h.leads with
    | file _ _ hf => exact Or.inl hf
    | enter hd => exact Or.inr (Option.isSome_iff_exists.2 ⟨_, hd⟩)

/-! ### In another order -/

/-- The file systems hold the same, which they may list in another order. -/
structure Relists (fs fs' : FileSystem) : Prop where
  workingDirectory : fs'.workingDirectory = fs.workingDirectory
  node : ∀ loc, fs'.node? loc = fs.node? loc

theorem Extends.visits (h : Extends fs fs') (hv : Visits fs excluded p q l) :
    Visits fs' excluded p q l := by
  induction hv with
  | here hd hx => exact .here (h.directoryAt? hd) hx
  | enter hd hx hn _ ih =>
    obtain ⟨hlisted, hsome⟩ := mem_children_iff.1 hn
    exact .enter (h.directoryAt? hd) hx (mem_children_iff.2 ⟨hlisted, h.isSome_node? hsome⟩) ih

theorem Extends.mem_childPaths (h : Extends fs fs') (hp : p ∈ fs.childPaths root base) :
    p ∈ fs'.childPaths root base := by
  obtain ⟨name, hn, rfl⟩ := mem_childPaths_iff.1 hp
  obtain ⟨hlisted, hsome⟩ := mem_children_iff.1 hn
  exact mem_childPaths_iff.2 ⟨name, mem_children_iff.2 ⟨hlisted, h.isSome_node? hsome⟩, rfl⟩

/-- Where no cycle ends a walk, none does when something is taken away. -/
theorem Extends.cycle_walkFrom_eq_none (h : Extends fs fs')
    (hcycle : (fs'.walkFrom wanted excluded root base).cycle = none) :
    (fs.walkFrom wanted excluded root base).cycle = none := by
  have hreaches {q : Path} {l : Location} (hq : Reaches fs excluded (fs.childPaths root base) q l) :
      Reaches fs' excluded (fs'.childPaths root base) q l := by
    obtain ⟨p, hp, hv⟩ := hq
    exact ⟨p, h.mem_childPaths hp, h.visits hv⟩
  have honce := (cycle_walkFrom_eq_none_iff root base).1 hcycle
  refine (cycle_walkFrom_eq_none_iff root base).2 ⟨fun q l hq => ?_, fun q q' l hq hq' => ?_⟩
  · exact honce.fresh q l (hreaches hq)
  · exact honce.unique q q' l (hreaches hq) (hreaches hq')

namespace Relists

theorem symm (h : Relists fs fs') : Relists fs' fs :=
  ⟨h.workingDirectory.symm, fun loc => (h.node loc).symm⟩

theorem toExtends (h : Relists fs fs') : Extends fs fs' where
  workingDirectory := h.workingDirectory
  directory hd := (h.node _).trans hd
  link hl := (h.node _).trans hl
  file hc := ⟨_, (h.node _).trans hc⟩

theorem leads (h : Relists fs fs')
    (hl : ∃ p ∈ fs.childPaths root base, Leads fs wanted excluded p q) :
    ∃ p ∈ fs'.childPaths root base, Leads fs' wanted excluded p q := by
  obtain ⟨p, hp, hl⟩ := hl
  exact ⟨p, h.toExtends.mem_childPaths hp, h.toExtends.leads hl⟩

/-- Whether files are found, and which, does not depend on the order in which directories list. -/
theorem filesBelow_eq (h : Relists fs fs') (hfiles : fs.filesBelow wanted excluded root = .ok files) :
    fs'.filesBelow wanted excluded root = .ok files := by
  obtain ⟨base, hroot, hcycle, rfl⟩ := filesBelow_eq_ok_iff.1 hfiles
  have hcycle' := h.symm.toExtends.cycle_walkFrom_eq_none hcycle
  refine filesBelow_eq_ok_iff.2 ⟨base, h.toExtends.directoryAt? hroot, hcycle', ?_⟩
  apply mergeSort_eq_of_apart (pairwise_found_walkFrom fs' root base)
    (pairwise_found_walkFrom fs root base)
  intro q
  rw [mem_found_walkFrom_iff hcycle', mem_found_walkFrom_iff hcycle]
  exact ⟨h.symm.leads, h.leads⟩

end Relists

/-! ### What is found -/

theorem mem_filesBelow_iff (h : fs.filesBelow wanted excluded root = .ok files) :
    q ∈ files ↔ IsSource fs wanted excluded root q := by
  obtain ⟨base, hroot, hcycle, rfl⟩ := filesBelow_eq_ok_iff.1 h
  rw [List.mem_mergeSort, mem_found_walkFrom_iff hcycle, exists_leads_iff hroot]

theorem pairwise_lt_mergeSort (h : ps.Pairwise Apart) :
    (ps.mergeSort Path.le).Pairwise fun p q => Path.components p < Path.components q := by
  have hapart : (ps.mergeSort Path.le).Pairwise Apart :=
    ((List.mergeSort_perm ps Path.le).pairwise_iff Apart.symm).2 h
  refine (hapart.and (Path.pairwise_mergeSort ps)).imp fun {p q} hpq => ?_
  exact lt_of_le_of_ne hpq.2 fun heq => hpq.1.1 (heq ▸ List.prefix_rfl)

theorem pairwise_filesBelow (h : fs.filesBelow wanted excluded root = .ok files) :
    files.Pairwise fun p q => Path.components p < Path.components q := by
  obtain ⟨base, -, -, rfl⟩ := filesBelow_eq_ok_iff.1 h
  exact pairwise_lt_mergeSort (pairwise_found_walkFrom fs root base)

end FileSystem

open FileSystem

theorem sourceFiles_eq_ok_iff {fs : FileSystem} {plan : Plan} {files : List Path} :
    sourceFiles fs plan = .ok files ↔
      ∃ rules, Rule.ofPatterns plan.exclude = .ok rules ∧
        fs.filesBelow (hasExtension plan.extension) (excludes rules plan.sourceDir) plan.sourceDir =
          .ok files := by
  unfold sourceFiles
  constructor
  · intro h
    split at h
    · cases hrules : Rule.ofPatterns plan.exclude with
      | error e => simp [hrules] at h
      | ok rules => exact ⟨rules, rfl, by simpa [hrules] using h⟩
    · contradiction
  · rintro ⟨rules, hrules, h⟩
    obtain ⟨base, hroot, -, -⟩ := filesBelow_eq_ok_iff.1 h
    have hdir : fs.isDirectory plan.sourceDir := Option.isSome_iff_exists.2 ⟨base, hroot⟩
    rw [if_pos hdir, hrules]
    exact h

/-- Whatever is left out, when files are found, they come in strictly increasing order, they are the
sources below the directory, and they are found in whichever order directories list. So it is for the
source files of a plan, for which the rules of the plan say what is left out. -/
theorem sourceFiles_exact :
    (∀ fs extension excluded root files,
      FileSystem.filesBelow fs (hasExtension extension) excluded root = .ok files →
        files.Pairwise (fun p q => Path.components p < Path.components q) ∧
          (∀ p, p ∈ files ↔ IsSource fs (hasExtension extension) excluded root p) ∧
          ∀ fs', Relists fs fs' → fs'.filesBelow (hasExtension extension) excluded root = .ok files) ∧
      ∀ fs plan files, sourceFiles fs plan = .ok files ↔
        ∃ rules, Rule.ofPatterns plan.exclude = .ok rules ∧
          fs.filesBelow (hasExtension plan.extension) (excludes rules plan.sourceDir) plan.sourceDir =
            .ok files :=
  ⟨fun _ _ _ _ _ h => ⟨pairwise_filesBelow h, fun _ => mem_filesBelow_iff h,
    fun _ hfs => hfs.filesBelow_eq h⟩, fun _ _ _ => sourceFiles_eq_ok_iff⟩

/-- The directory `/s` with two files and a link to the directory `/t`, in which there is another one. -/
def linkedTree : FileSystem where
  entries := [(["s".toList], .directory), (["s".toList, "l".toList], .link "/t".toList),
    (["s".toList, "x.php".toList], .file []), (["s".toList, "b.PHP".toList], .file []),
    (["t".toList], .directory), (["t".toList, "c.php".toList], .file [])]
  workingDirectory := []
  distinct := by simp

/-- The second file is left out. -/
def linkedTreeExcluded (p : Path) (_ : Bool) : Bool := p == "/s/x.php".toList

theorem filesBelow_linkedTree :
    linkedTree.filesBelow (hasExtension "php".toList) linkedTreeExcluded "/s".toList =
      .ok ["/s/b.PHP".toList, "/s/l/c.php".toList] := by
  have hs : linkedTree.directoryAt? "/s".toList = some ["s".toList] := by cbv
  have hl : linkedTree.directoryAt? "/s/l".toList = some ["t".toList] := by cbv
  have hx : linkedTree.directoryAt? "/s/x.php".toList = none := by cbv
  have hb : linkedTree.directoryAt? "/s/b.PHP".toList = none := by cbv
  have hc : linkedTree.directoryAt? "/s/l/c.php".toList = none := by cbv
  have hchildren : linkedTree.childPaths "/s".toList ["s".toList] =
      ["/s/l".toList, "/s/x.php".toList, "/s/b.PHP".toList] := by cbv
  have hlinked : linkedTree.childPaths "/s/l".toList ["t".toList] = ["/s/l/c.php".toList] := by cbv
  have hkept : linkedTreeExcluded "/s/l".toList true = false := by cbv
  have hleft : linkedTreeExcluded "/s/x.php".toList false = true := by cbv
  have hnew : ["t".toList] ∉ [["s".toList]] := by decide
  unfold FileSystem.filesBelow
  simp only [hs, walkFrom, hchildren]
  rw [walk_of_directory hl hkept hnew, hlinked, List.singleton_append, walk_of_file hc,
    if_pos (by cbv), walk_of_file hx, if_neg (by rw [hleft]; simp), walk_of_file hb, if_pos (by cbv), walk]
  cbv

theorem sourceFiles_exact_linkedTree :
    linkedTree.filesBelow (hasExtension "php".toList) linkedTreeExcluded "/s".toList =
        .ok ["/s/b.PHP".toList, "/s/l/c.php".toList] ∧
      ["/s/b.PHP".toList, "/s/l/c.php".toList].Pairwise
        (fun p q => Path.components p < Path.components q) ∧
      (∀ p, p ∈ ["/s/b.PHP".toList, "/s/l/c.php".toList] ↔
        IsSource linkedTree (hasExtension "php".toList) linkedTreeExcluded "/s".toList p) ∧
      ∀ fs', Relists linkedTree fs' →
        fs'.filesBelow (hasExtension "php".toList) linkedTreeExcluded "/s".toList =
          .ok ["/s/b.PHP".toList, "/s/l/c.php".toList] :=
  ⟨filesBelow_linkedTree, sourceFiles_exact.1 _ _ _ _ _ filesBelow_linkedTree⟩

end DocPages
