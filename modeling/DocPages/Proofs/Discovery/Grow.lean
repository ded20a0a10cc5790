import DocPages.Proofs.Discovery.Walk
import DocPages.Proofs.FileSystem.Overwrite
import DocPages.Proofs.FileSystem.Tree
import Mathlib.Data.List.Lex
import Mathlib.Data.List.Pairwise
import Mathlib.Data.Char

/-!
# Source files of a tree that grows

When directories are made and files with certain names are written, a file system grows (`Grows`). A
walk that wants no files with these names finds in it what it found before: each file it gets to was
there before, and in a tree so were the directories above it.

Main statements: the same files are found (`Grows.filesBelow_eq`), and they are what they were
(`Grows.resolve_of_mem_filesBelow`).
-/

namespace DocPages

/-! ### The order of paths -/

section Order

variable {p q : Path} {ps qs : List Path}

theorem Text.lt_iff {s t : Text} : Text.lt s t ↔ s < t :=
  List.lex_eq_true_iff_lt

theorem Path.le_iff : Path.le p q ↔ ¬ Path.components q < Path.components p := by
  have hlt : Text.lt = fun s t => decide (s < t) := by
    funext s t
    rw [Bool.eq_iff_iff, Text.lt_iff, decide_eq_true_iff]
  rw [Path.le, hlt, Bool.not_eq_true', ← Bool.not_eq_true, List.lex_eq_true_iff_lt]

theorem Path.pairwise_mergeSort (ps : List Path) :
    (ps.mergeSort Path.le).Pairwise fun p q => Path.components p ≤ Path.components q := by
  have hsorted : (ps.mergeSort Path.le).Pairwise fun p q => Path.le p q := by
    apply List.pairwise_mergeSort
    · intro a b c hab hbc
      rw [Path.le_iff, not_lt] at *
      exact hab.trans hbc
    · intro a b
      rw [Bool.or_eq_true, Path.le_iff, Path.le_iff, not_lt, not_lt]
      exact le_total _ _
  exact hsorted.imp fun hle => not_lt.1 (Path.le_iff.1 hle)

/-- Paths that lie apart are sorted in one way. -/
theorem mergeSort_eq_of_apart (hp : ps.Pairwise FileSystem.Apart) (hq : qs.Pairwise FileSystem.Apart)
    (h : ∀ p, p ∈ ps ↔ p ∈ qs) : ps.mergeSort Path.le = qs.mergeSort Path.le := by
  have hne {p q : Path} (h : FileSystem.Apart p q) : p ≠ q := by
    rintro rfl
    exact h.1 List.prefix_rfl
  have hperm : ps.Perm qs :=
    (List.perm_ext_iff_of_nodup (hp.imp hne) (hq.imp hne)).2 h
  have hsort := List.mergeSort_perm ps Path.le
  have hsort' := List.mergeSort_perm qs Path.le
  refine List.Perm.eq_of_pairwise (fun a b ha hb hab hba => ?_) (Path.pairwise_mergeSort ps)
    (Path.pairwise_mergeSort qs) (hsort.trans (hperm.trans hsort'.symm))
  have heq := le_antisymm hab hba
  by_contra hab'
  have hapart : FileSystem.Apart a b := by
    have : Std.Symm FileSystem.Apart := ⟨fun _ _ h => h.symm⟩
    exact hp.forall (hsort.mem_iff.1 ha) (hperm.mem_iff.2 (hsort'.mem_iff.1 hb)) hab'
  exact hapart.1 (heq ▸ List.prefix_rfl)

end Order

namespace FileSystem

/-! ### Growing -/

/-- Directories have been made, and files have been written whose names are `named`. -/
structure Grows (named : Text → Prop) (fs fs' : FileSystem) : Prop where
  workingDirectory : fs'.workingDirectory = fs.workingDirectory
  node : ∀ loc, fs'.node? loc = fs.node? loc ∨
    (fs.node? loc = none ∧ fs'.node? loc = some .directory) ∨
    fs.HasRoom loc ∧ ∃ parent name c, loc = parent ++ [name] ∧ named name ∧
      fs'.node? loc = some (.file c)

variable {named : Text → Prop} {fs fs' : FileSystem} {loc : Location} {name : Text} {p q : Path}
  {wanted : Path → Bool} {excluded : Path → Bool → Bool}

theorem AddsDirectories.grows (h : AddsDirectories fs fs') : Grows named fs fs' :=
  ⟨h.workingDirectory, fun loc => (h.node loc).imp_right Or.inl⟩

namespace Grows

theorem put (h : Grows named fs fs') (hroom : fs'.HasRoom (loc ++ [name])) (hname : named name)
    (c : Bytes) : Grows named fs (fs'.put (loc ++ [name]) (.file c)) := by
  refine ⟨h.workingDirectory, fun l => ?_⟩
  by_cases hl : l = loc ++ [name]
  · right; right
    refine ⟨fun node hn => ?_, loc, name, c, hl, hname, ?_⟩
    · rcases h.node l with hold | ⟨hnone, -⟩ | ⟨hold, -⟩
      · exact hroom node (by rw [← hl, hold, hn])
      · rw [hnone] at hn
        contradiction
      · exact hold node hn
    · rw [hl]
      exact hroom.node?_put_self
  · rw [hroom.node?_put_of_ne hl]
    exact h.node l

theorem putFiles {files : List (Location × Bytes)} (h : Grows named fs fs')
    (hfiles : ∀ f ∈ files, fs'.HasRoom f.1 ∧ ∃ loc name, f.1 = loc ++ [name] ∧ named name) :
    Grows named fs (fs'.putFiles files) := by
  induction files generalizing fs' with
  | nil => exact h
  | cons f files ih =>
    obtain ⟨hroom, loc, name, hf, hname⟩ := hfiles f List.mem_cons_self
    have hput : Grows named fs (fs'.put f.1 (.file f.2)) := by
      rw [hf] at hroom ⊢
      exact h.put hroom hname f.2
    refine ih hput fun f' hf' => ?_
    obtain ⟨hroom', hname'⟩ := hfiles f' (List.mem_cons_of_mem _ hf')
    exact ⟨hroom.put hroom', hname'⟩

theorem toExtends (h : Grows named fs fs') : Extends fs fs' := by
  -- What is no file makes no room for one.
  have hkeep {loc : Location} {node : Node} (hn : fs.node? loc = some node)
      (hf : ∀ c, node ≠ .file c) : fs'.node? loc = some node := by
    rcases h.node loc with hold | ⟨hnone, -⟩ | ⟨hroom, -⟩
    · rw [hold, hn]
    · rw [hnone] at hn
      contradiction
    · obtain ⟨c, hc⟩ := hroom node hn
      exact absurd hc (hf c)
  refine ⟨h.workingDirectory, fun hn => hkeep hn (by simp), fun hn => hkeep hn (by simp), ?_⟩
  intro loc c hn
  rcases h.node loc with hold | ⟨hnone, -⟩ | ⟨-, _, _, c', -, -, hnew⟩
  · exact ⟨c, by rw [hold, hn]⟩
  · rw [hnone] at hn
    contradiction
  · exact ⟨c', hnew⟩

/-- A file with another name has not been written. -/
theorem node?_eq_iff (h : Grows named fs fs') (hname : ¬ named name) {c : Bytes} :
    fs'.node? (loc ++ [name]) = some (.file c) ↔ fs.node? (loc ++ [name]) = some (.file c) := by
  rcases h.node (loc ++ [name]) with hold | ⟨hnone, hnew⟩ | ⟨-, parent, name', c', heq, hname', -⟩
  · rw [hold]
  · simp [hnone, hnew]
  · obtain ⟨-, hname''⟩ := List.append_inj' heq rfl
    obtain rfl : name = name' := by simpa using hname''
    exact absurd hname' hname

end Grows

/-! ### Where a walk leads -/

theorem Leads.isWanted (h : Leads fs wanted excluded p q) : wanted q := by
  induction h with
  | file _ _ _ hw => exact hw
  | enter _ _ _ _ ih => exact ih

/-- A walk still gets to every file. -/
theorem Extends.leads (h : Extends fs fs') (hq : Leads fs wanted excluded p q) :
    Leads fs' wanted excluded p q := by
  induction hq with
  | file hd hx hf hw =>
    obtain ⟨loc, c, hres⟩ := isFile_iff.1 hf
    obtain ⟨_, hplace, ⟨⟩⟩ := h.resolve hres (by simp)
    refine .file ?_ hx ?_ hw
    · rw [FileSystem.directoryAt?, hplace]
    · rw [isFile, hplace]
  | enter hd hx hn _ ih =>
    obtain ⟨hlisted, hsome⟩ := mem_children_iff.1 hn
    exact .enter (h.directoryAt? hd) hx (mem_children_iff.2 ⟨hlisted, h.isSome_node? hsome⟩) ih

/-- What the path of an entry leads to depends on what there is at its location. -/
theorem resolve_join_congr (hp : fs.directoryAt? p = some loc) (hp' : fs'.directoryAt? p = some loc)
    (hn : IsListed name) (hlink : ∀ target, fs.node? (loc ++ [name]) ≠ some (.link target))
    (hnode : fs'.node? (loc ++ [name]) = fs.node? (loc ++ [name])) :
    fs'.resolve .find (Path.join p name) = fs.resolve .find (Path.join p name) := by
  have hlink' : ∀ target, fs'.node? (loc ++ [name]) ≠ some (.link target) := by
    rw [hnode]
    exact hlink
  rw [resolve_join hp hn hlink, resolve_join hp' hn hlink', placeAt, placeAt, hnode]

/-- Where there are no links, an entry that is a file lies in the directory. -/
theorem node?_of_isFile_join (hfs : fs.HasNoLinks) (hp : fs.directoryAt? p = some loc)
    (hn : IsListed name) (h : fs.isFile (Path.join p name)) :
    ∃ c, fs.node? (loc ++ [name]) = some (.file c) := by
  obtain ⟨l, c, hres⟩ := isFile_iff.1 h
  rw [resolve_join hp hn (hfs _)] at hres
  split at hres
  · contradiction
  · have hplace := Except.ok.inj hres
    unfold placeAt at hplace
    split at hplace
    · next c' hnode => exact ⟨c', hnode⟩
    · contradiction
    · contradiction

/-- Where there are no links, a walk from an entry of a directory leads to entries of directories below
it. -/
theorem Leads.exists_entry (hfs : fs.HasNoLinks) (hp : fs.directoryAt? p = some loc)
    (hn : IsListed name) (h : Leads fs wanted excluded (Path.join p name) q) :
    ∃ dir below last c, q = Path.join dir last ∧ IsListed last ∧
      fs.directoryAt? dir = some (loc ++ below) ∧
      fs.node? (loc ++ below ++ [last]) = some (.file c) := by
  generalize hr : Path.join p name = r at h
  induction h generalizing p loc name with
  | file _ _ hf =>
    subst hr
    obtain ⟨c, hc⟩ := node?_of_isFile_join hfs hp hn hf
    exact ⟨p, [], name, c, rfl, hn, by simpa using hp, by simpa using hc⟩
  | enter hd _ hn' _ ih =>
    subst hr
    obtain ⟨rfl, -⟩ := directoryAt?_join hfs hp hn hd
    obtain ⟨dir, below, last, c, hq, hlast, hdir, hc⟩ := ih hd (mem_children_iff.1 hn').1 rfl
    exact ⟨dir, name :: below, last, c, hq, hlast, by simpa using hdir, by simpa using hc⟩

/-! ### What is found in a tree that grows -/

section Found

variable {root : Path} {base : Location} {files : List Path} (h : Grows named fs fs')
  (hfs : fs.HasNoLinks) (hfs' : fs'.HasNoLinks)
  (hwanted : ∀ name, named name → IsListed name → ∀ dir, wanted (Path.join dir name) = false)
include h hwanted

/-- A wanted file that is an entry has not been written. -/
theorem Grows.node?_of_wanted (hn : IsListed name) (hw : wanted (Path.join p name)) {c : Bytes} :
    fs'.node? (loc ++ [name]) = some (.file c) ↔ fs.node? (loc ++ [name]) = some (.file c) := by
  apply h.node?_eq_iff
  intro hnamed
  rw [hwanted name hnamed hn] at hw
  contradiction

include hfs

/-- What a walk found is what it was. -/
theorem Grows.resolve_of_leads (hp : fs.directoryAt? p = some loc) (hn : IsListed name)
    (hlead : Leads fs wanted excluded (Path.join p name) q) :
    fs'.resolve .find q = fs.resolve .find q := by
  obtain ⟨dir, below, last, c, rfl, hlast, hdir, hold⟩ := hlead.exists_entry hfs hp hn
  have hnew := (h.node?_of_wanted hwanted hlast hlead.isWanted).2 hold
  exact resolve_join_congr hdir (h.toExtends.directoryAt? hdir) hlast (hfs _) (hnew.trans hold.symm)

include hfs'

/-- A walk from an entry of a directory that was there leads nowhere else. -/
theorem Grows.leads_of_leads (htree : fs.IsTree) (hp : fs.directoryAt? p = some loc)
    (hn : IsListed name) (hlead : Leads fs' wanted excluded (Path.join p name) q) :
    name ∈ fs.children loc ∧ Leads fs wanted excluded (Path.join p name) q := by
  generalize hr : Path.join p name = r at hlead
  induction hlead generalizing p loc name with
  | @file r hd hx hf hw =>
    subst hr
    have hp' := h.toExtends.directoryAt? hp
    obtain ⟨c, hnew⟩ := node?_of_isFile_join hfs' hp' hn hf
    have hold := (h.node?_of_wanted hwanted hn hw).1 hnew
    have hres := resolve_join_congr hp hp' hn (hfs _) (hnew.trans hold.symm)
    refine ⟨mem_children_iff.2 ⟨hn, by rw [hold]; rfl⟩, .file ?_ hx ?_ hw⟩
    · rwa [FileSystem.directoryAt?, ← hres]
    · rwa [isFile, ← hres]
  | @enter r q l name' hd hx hn' hlead ih =>
    subst hr
    have hp' := h.toExtends.directoryAt? hp
    obtain ⟨rfl, hnew⟩ := directoryAt?_join hfs' hp' hn hd
    have hlisted := (mem_children_iff.1 hn').1
    -- Some file below the directory was there before, and so was the directory.
    obtain ⟨dir, below, last, c, rfl, hlast, -, hc⟩ := hlead.exists_entry hfs' hd hlisted
    rw [h.node?_of_wanted hwanted hlast hlead.isWanted] at hc
    have hbelow : (fs.node? (loc ++ [name] ++ below ++ [last])).isSome := by
      rw [hc]
      rfl
    have hold := htree.node?_above hbelow
    have hres := resolve_join_congr hp hp' hn (hfs _) (hnew.trans hold.symm)
    rw [FileSystem.directoryAt?, hres] at hd
    obtain ⟨hmem, hrest⟩ := ih hd hlisted rfl
    exact ⟨mem_children_iff.2 ⟨hn, by rw [hold]; rfl⟩, .enter hd hx hmem hrest⟩

/-- The same files are found. -/
theorem Grows.filesBelow_eq (htree : fs.IsTree) (hroot : fs.directoryAt? root = some base) :
    fs'.filesBelow wanted excluded root = fs.filesBelow wanted excluded root := by
  have hroot' := h.toExtends.directoryAt? hroot
  have hcycle : (fs.walkFrom wanted excluded root base).cycle = none :=
    cycle_walkFrom_of_hasNoLinks hfs hroot
  have hcycle' : (fs'.walkFrom wanted excluded root base).cycle = none :=
    cycle_walkFrom_of_hasNoLinks hfs' hroot'
  have hmem (q : Path) : q ∈ (fs'.walkFrom wanted excluded root base).found ↔
      q ∈ (fs.walkFrom wanted excluded root base).found := by
    rw [mem_found_walkFrom_iff hcycle', mem_found_walkFrom_iff hcycle]
    constructor
    · rintro ⟨r, hr, hlead⟩
      obtain ⟨name, hn, rfl⟩ := mem_childPaths_iff.1 hr
      have hlisted := (mem_children_iff.1 hn).1
      obtain ⟨hn, hlead⟩ := h.leads_of_leads hfs hfs' hwanted htree hroot hlisted hlead
      exact ⟨_, mem_childPaths_iff.2 ⟨name, hn, rfl⟩, hlead⟩
    · rintro ⟨r, hr, hlead⟩
      obtain ⟨name, hn, rfl⟩ := mem_childPaths_iff.1 hr
      obtain ⟨hlisted, hsome⟩ := mem_children_iff.1 hn
      have hn' := mem_children_iff.2 ⟨hlisted, h.toExtends.isSome_node? hsome⟩
      exact ⟨_, mem_childPaths_iff.2 ⟨name, hn', rfl⟩, h.toExtends.leads hlead⟩
  unfold filesBelow
  simp only [hroot, hroot', hcycle, hcycle']
  rw [mergeSort_eq_of_apart (pairwise_found_walkFrom fs' root base)
    (pairwise_found_walkFrom fs root base) hmem]

omit hfs' in
/-- The files that are found are what they were. -/
theorem Grows.resolve_of_mem_filesBelow (hfiles : fs.filesBelow wanted excluded root = .ok files)
    (hq : q ∈ files) : fs'.resolve .find q = fs.resolve .find q := by
  obtain ⟨base, hroot, hcycle, rfl⟩ := filesBelow_eq_ok_iff.1 hfiles
  rw [List.mem_mergeSort, mem_found_walkFrom_iff hcycle] at hq
  obtain ⟨r, hr, hlead⟩ := hq
  obtain ⟨name, hn, rfl⟩ := mem_childPaths_iff.1 hr
  exact h.resolve_of_leads hfs hwanted hroot (mem_children_iff.1 hn).1 hlead

end Found

end FileSystem

end DocPages
