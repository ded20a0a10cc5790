import DocPages.Proofs.FileSystem.Entry

/-!
# What a walk finds

A walk goes from directory to directory, and what it finds can be said without it: a path leads to a
file (`Leads`) through directories that are not left out. This module relates the two, shows that no
two of the paths on a walk lie one below the other (`Apart`), and that a walk which meets no link meets
no directory twice.

Main statements: a walk that is not ended by a cycle finds exactly the files to which its paths lead
(`mem_found_walk_iff`), each one once (`pairwise_found_walkFrom`), and where there are no links no
cycle ends it (`cycle_walkFrom_of_hasNoLinks`).
-/

namespace DocPages

namespace FileSystem

section Leads

variable (fs : FileSystem) (wanted : Path → Bool) (excluded : Path → Bool → Bool)

/-- From one path a walk gets to the wanted file at another one. -/
inductive Leads : Path → Path → Prop
  | file {p} (hd : fs.directoryAt? p = none) (hx : excluded p false = false) (hf : fs.isFile p)
      (hw : wanted p) : Leads p p
  | enter {p q loc name} (hd : fs.directoryAt? p = some loc) (hx : excluded p true = false)
      (hn : name ∈ fs.children loc) (h : Leads (Path.join p name) q) : Leads p q

end Leads

variable {fs : FileSystem} {wanted : Path → Bool} {excluded : Path → Bool → Bool} {w : Walk}
  {p q : Path} {todo : List Path} {loc : Location} {name : Text}

theorem mem_childPaths_iff : q ∈ fs.childPaths p loc ↔ ∃ name ∈ fs.children loc, Path.join p name = q :=
  List.mem_map

theorem not_leads_of_excluded (wanted : Path → Bool) (q : Path) (hd : fs.directoryAt? p = some loc)
    (hx : excluded p true) :
    ¬ Leads fs wanted excluded p q := by
  intro h
  cases h with
  | file hd' => simp [hd] at hd'
  | enter _ hx' => simp [hx] at hx'

theorem leads_iff_of_directory (wanted : Path → Bool) (q : Path) (hd : fs.directoryAt? p = some loc)
    (hx : excluded p true = false) :
    Leads fs wanted excluded p q ↔ ∃ r ∈ fs.childPaths p loc, Leads fs wanted excluded r q := by
  constructor
  · intro h
    cases h with
    | file hd' => simp [hd] at hd'
    | enter hd' _ hn h =>
      rw [hd, Option.some.injEq] at hd'
      subst hd'
      exact ⟨_, mem_childPaths_iff.2 ⟨_, hn, rfl⟩, h⟩
  · rintro ⟨r, hr, h⟩
    obtain ⟨name, hn, rfl⟩ := mem_childPaths_iff.1 hr
    exact .enter hd hx hn h

theorem leads_iff_of_file (wanted : Path → Bool) (excluded : Path → Bool → Bool) (q : Path)
    (hd : fs.directoryAt? p = none) :
    Leads fs wanted excluded p q ↔
      q = p ∧ (!excluded p false && fs.isFile p && wanted p) = true := by
  constructor
  · intro h
    cases h with
    | file _ hx hf hw => exact ⟨rfl, by simp [hx, hf, hw]⟩
    | enter hd' => simp [hd] at hd'
  · rintro ⟨rfl, h⟩
    simp only [Bool.and_eq_true, Bool.not_eq_true'] at h
    exact .file hd h.1.1 h.1.2 h.2

/-- A file on a walk is collected if it is wanted and not left out. -/
theorem walk_of_file (h : fs.directoryAt? p = none) :
    fs.walk wanted excluded w (p :: todo) =
      if !excluded p false && fs.isFile p && wanted p then
        fs.walk wanted excluded { w with found := w.found ++ [p] } todo
      else fs.walk wanted excluded w todo := by
  rw [walk]
  split
  · next loc hloc => simp [h] at hloc
  · rfl

/-- A directory that has not been met is entered. -/
theorem walk_of_directory (h : fs.directoryAt? p = some loc) (hx : excluded p true = false)
    (hv : loc ∉ w.entered) :
    fs.walk wanted excluded w (p :: todo) =
      fs.walk wanted excluded { w with entered := loc :: w.entered }
        (fs.childPaths p loc ++ todo) := by
  rw [walk]
  split
  · next l hl =>
    obtain rfl : loc = l := Option.some.inj (h.symm.trans hl)
    rw [if_neg (by simp [hx]), dif_neg hv]
  · next hnone => simp [h] at hnone

/-- A directory that has been met ends the walk. -/
theorem walk_of_entered (h : fs.directoryAt? p = some loc) (hx : excluded p true = false)
    (hv : loc ∈ w.entered) :
    fs.walk wanted excluded w (p :: todo) = { w with cycle := some p } := by
  rw [walk]
  split
  · next l hl =>
    obtain rfl : loc = l := Option.some.inj (h.symm.trans hl)
    rw [if_neg (by simp [hx]), dif_pos hv]
  · next hnone => simp [h] at hnone

/-- A walk that is not ended by a cycle finds the files to which its paths lead. -/
theorem mem_found_walk_iff (h : (fs.walk wanted excluded w todo).cycle = none) :
    q ∈ (fs.walk wanted excluded w todo).found ↔
      q ∈ w.found ∨ ∃ p ∈ todo, Leads fs wanted excluded p q := by
  fun_induction fs.walk wanted excluded w todo with
  | case1 => simp
  | case2 w p rest loc hp hx ih =>
    have hnot := not_leads_of_excluded wanted q hp hx
    simp [ih h, hnot]
  | case3 => simp at h
  | case4 w p rest loc hp hx hv ih =>
    have hp' := leads_iff_of_directory wanted q hp (by simpa using hx)
    rw [ih h]
    simp only [List.mem_append, or_and_right, exists_or, List.mem_cons, exists_eq_left, hp']
  | case5 w p rest hp hf ih =>
    have hp' := leads_iff_of_file wanted excluded q hp
    rw [ih h]
    simp [hp', hf, or_assoc]
  | case6 w p rest hp hf ih =>
    have hp' := leads_iff_of_file wanted excluded q hp
    rw [ih h]
    simp [hp', hf]

theorem mem_found_walkFrom_iff {root : Path} {base : Location}
    (h : (fs.walkFrom wanted excluded root base).cycle = none) :
    q ∈ (fs.walkFrom wanted excluded root base).found ↔
      ∃ p ∈ fs.childPaths root base, Leads fs wanted excluded p q := by
  rw [walkFrom, mem_found_walk_iff h]
  exact or_iff_right (List.not_mem_nil)

/-- The files below a directory are those that a walk through it finds, if no cycle ends it. -/
theorem filesBelow_eq_ok_iff {root : Path} {files : List Path} :
    fs.filesBelow wanted excluded root = .ok files ↔
      ∃ base, fs.directoryAt? root = some base ∧
        (fs.walkFrom wanted excluded root base).cycle = none ∧
        (fs.walkFrom wanted excluded root base).found.mergeSort Path.le = files := by
  unfold filesBelow
  cases fs.directoryAt? root with
  | none => simp
  | some base => cases hcycle : (fs.walkFrom wanted excluded root base).cycle <;> simp [hcycle]

/-! ### Paths on a walk lie apart -/

/-- Neither path lies below the other one. -/
def Apart (p q : Path) : Prop :=
  ¬ Path.components p <+: Path.components q ∧ ¬ Path.components q <+: Path.components p

theorem Apart.symm (h : Apart p q) : Apart q p := ⟨h.2, h.1⟩

theorem Apart.join (h : Apart p q) (hn : IsListed name) : Apart (Path.join p name) q := by
  rw [Apart, Path.components_join p hn]
  constructor
  · intro hpre
    exact h.1 ((List.prefix_append _ _).trans hpre)
  · intro hpre
    rcases List.prefix_concat_iff.1 hpre with heq | hpre
    · exact h.1 (heq ▸ List.prefix_append _ _)
    · exact h.2 hpre

theorem apart_join_join {name' : Text} (hn : IsListed name) (hn' : IsListed name')
    (hne : name ≠ name') : Apart (Path.join p name) (Path.join p name') := by
  rw [Apart, Path.components_join p hn, Path.components_join p hn']
  constructor
  · intro hpre
    have heq := hpre.eq_of_length (by simp)
    exact hne (by simpa using heq)
  · intro hpre
    have heq := hpre.eq_of_length (by simp)
    exact hne.symm (by simpa using heq)

theorem pairwise_childPaths (fs : FileSystem) (p : Path) (loc : Location) :
    (fs.childPaths p loc).Pairwise Apart := by
  rw [childPaths, List.pairwise_map]
  refine (fs.nodup_children loc).imp_of_mem fun {n n'} hn hn' hne => ?_
  exact apart_join_join (mem_children_iff.1 hn).1 (mem_children_iff.1 hn').1 hne

/-- In place of a directory, its entries lie apart from all others. -/
theorem pairwise_childPaths_append {rest : List Path} (h : (p :: rest).Pairwise Apart)
    (loc : Location) : (fs.childPaths p loc ++ rest).Pairwise Apart := by
  rw [List.pairwise_cons] at h
  rw [List.pairwise_append]
  refine ⟨pairwise_childPaths fs p loc, h.2, fun r hr s hs => ?_⟩
  obtain ⟨n, hn, rfl⟩ := mem_childPaths_iff.1 hr
  exact (h.1 s hs).join (mem_children_iff.1 hn).1

theorem pairwise_found_walk (h : (w.found ++ todo).Pairwise Apart) :
    (fs.walk wanted excluded w todo).found.Pairwise Apart := by
  fun_induction fs.walk wanted excluded w todo with
  | case1 => simpa using h
  | case2 w p rest loc hp hx ih => exact ih (h.sublist (by simp))
  | case3 => exact h.sublist (List.sublist_append_left _ _)
  | case4 w p rest loc hp hx hv ih =>
    rw [List.pairwise_append] at h
    refine ih (List.pairwise_append.2 ⟨h.1, pairwise_childPaths_append h.2.1 loc, ?_⟩)
    intro r hr s hs
    rcases List.mem_append.1 hs with hs | hs
    · obtain ⟨n, hn, rfl⟩ := mem_childPaths_iff.1 hs
      exact ((h.2.2 r hr p List.mem_cons_self).symm.join (mem_children_iff.1 hn).1).symm
    · exact h.2.2 r hr s (List.mem_cons_of_mem _ hs)
  | case5 w p rest hp hf ih => exact ih (by simpa using h)
  | case6 w p rest hp hf ih => exact ih (h.sublist (by simp))

theorem pairwise_found_walkFrom (fs : FileSystem) (root : Path) (loc : Location) :
    (fs.walkFrom wanted excluded root loc).found.Pairwise Apart :=
  pairwise_found_walk (by simpa using pairwise_childPaths fs root loc)

/-! ### Without links -/

/-- The location to which a path below `root` leads, if it leads to a directory. -/
def locationBelow (root : Path) (base : Location) (p : Path) : Location :=
  base ++ (Path.components p).drop (Path.components root).length

/-- What holds of a walk below `root` where there are no links: a path leads to the directory at its
location or to none, and that location lies above no directory that has been entered. -/
structure EntersOnce (fs : FileSystem) (root : Path) (base : Location) (entered : List Location)
    (todo : List Path) : Prop where
  below : ∀ p ∈ todo, Path.components root <+: Path.components p
  location : ∀ p ∈ todo, ∀ loc, fs.directoryAt? p = some loc → loc = locationBelow root base p
  apart : todo.Pairwise Apart
  fresh : ∀ p ∈ todo, ∀ loc ∈ entered, ¬ locationBelow root base p <+: loc

section EntersOnce

variable {root : Path} {base : Location} {entered : List Location} {rest : List Path}

theorem locationBelow_join (hroot : Path.components root <+: Path.components p) (hn : IsListed name) :
    locationBelow root base (Path.join p name) = locationBelow root base p ++ [name] := by
  rw [locationBelow, locationBelow, Path.components_join p hn,
    List.drop_append_of_le_length hroot.length_le, List.append_assoc]

/-- The locations of paths that lie apart do so as well. -/
theorem Apart.locationBelow (h : Apart p q) (hp : Path.components root <+: Path.components p)
    (hq : Path.components root <+: Path.components q) :
    ¬ FileSystem.locationBelow root base p <+: FileSystem.locationBelow root base q := by
  obtain ⟨s, hs⟩ := hp
  obtain ⟨t, ht⟩ := hq
  intro hpre
  rw [FileSystem.locationBelow, FileSystem.locationBelow, ← hs, ← ht, List.drop_left, List.drop_left,
    List.prefix_append_right_inj] at hpre
  apply h.1
  rw [← hs, ← ht, List.prefix_append_right_inj]
  exact hpre

theorem EntersOnce.tail (h : EntersOnce fs root base entered (p :: rest)) :
    EntersOnce fs root base entered rest where
  below q hq := h.below q (List.mem_cons_of_mem _ hq)
  location q hq := h.location q (List.mem_cons_of_mem _ hq)
  apart := h.apart.tail
  fresh q hq := h.fresh q (List.mem_cons_of_mem _ hq)

/-- A directory that is met has not been entered. -/
theorem EntersOnce.not_mem (h : EntersOnce fs root base entered (p :: rest))
    (hp : fs.directoryAt? p = some loc) : loc ∉ entered := by
  intro hmem
  have hloc := h.location p List.mem_cons_self loc hp
  exact h.fresh p List.mem_cons_self loc hmem (hloc ▸ List.prefix_rfl)

theorem EntersOnce.enter (hfs : fs.HasNoLinks) (h : EntersOnce fs root base entered (p :: rest))
    (hp : fs.directoryAt? p = some loc) :
    EntersOnce fs root base (loc :: entered) (fs.childPaths p loc ++ rest) := by
  have hroot := h.below p List.mem_cons_self
  have hloc := h.location p List.mem_cons_self loc hp
  have hapart := h.apart
  rw [List.pairwise_cons] at hapart
  refine ⟨fun q hq => ?_, fun q hq l hl => ?_, pairwise_childPaths_append h.apart loc,
    fun q hq l hl hpre => ?_⟩
  · rcases List.mem_append.1 hq with hq | hq
    · obtain ⟨n, hn, rfl⟩ := mem_childPaths_iff.1 hq
      rw [Path.components_join p (mem_children_iff.1 hn).1]
      exact hroot.trans (List.prefix_append _ _)
    · exact h.below q (List.mem_cons_of_mem _ hq)
  · rcases List.mem_append.1 hq with hq | hq
    · obtain ⟨n, hn, rfl⟩ := mem_childPaths_iff.1 hq
      have hlisted := (mem_children_iff.1 hn).1
      rw [locationBelow_join hroot hlisted, ← hloc]
      exact (directoryAt?_join hfs hp hlisted hl).1
    · exact h.location q (List.mem_cons_of_mem _ hq) l hl
  · rcases List.mem_append.1 hq with hchild | hrest
    · -- An entry lies below the directory that has just been entered, and so above none before.
      obtain ⟨n, hn, rfl⟩ := mem_childPaths_iff.1 hchild
      rw [locationBelow_join hroot (mem_children_iff.1 hn).1] at hpre
      rcases List.mem_cons.1 hl with rfl | hl
      · have hlen := hpre.length_le
        rw [← hloc, List.length_append, List.length_singleton] at hlen
        omega
      · exact h.fresh p List.mem_cons_self l hl ((List.prefix_append _ _).trans hpre)
    · rcases List.mem_cons.1 hl with rfl | hl
      · rw [hloc] at hpre
        have hbelow := h.below q (List.mem_cons_of_mem _ hrest)
        exact (hapart.1 q hrest).symm.locationBelow hbelow hroot hpre
      · exact h.fresh q (List.mem_cons_of_mem _ hrest) l hl hpre

theorem cycle_walk_of_entersOnce (hfs : fs.HasNoLinks) (hw : w.cycle = none)
    (h : EntersOnce fs root base w.entered todo) :
    (fs.walk wanted excluded w todo).cycle = none := by
  fun_induction fs.walk wanted excluded w todo with
  | case1 => exact hw
  | case2 w p rest loc hp hx ih => exact ih hw h.tail
  | case3 w p rest loc hp hx hv => exact absurd hv (h.not_mem hp)
  | case4 w p rest loc hp hx hv ih => exact ih hw (h.enter hfs hp)
  | case5 w p rest hp hf ih => exact ih hw h.tail
  | case6 w p rest hp hf ih => exact ih hw h.tail

/-- Where there are no links, no directory is met twice. -/
theorem cycle_walkFrom_of_hasNoLinks (hfs : fs.HasNoLinks) (hroot : fs.directoryAt? root = some base) :
    (fs.walkFrom wanted excluded root base).cycle = none := by
  have hstart : EntersOnce fs root base [] [root] := by
    refine ⟨by simp, fun q hq loc hq' => ?_, List.pairwise_singleton _ _, by simp⟩
    rw [List.mem_singleton.1 hq, hroot, Option.some.injEq] at hq'
    rw [List.mem_singleton.1 hq, FileSystem.locationBelow, List.drop_length, List.append_nil, hq']
  have henter := hstart.enter hfs hroot
  rw [List.append_nil] at henter
  exact cycle_walk_of_entersOnce hfs rfl henter

end EntersOnce

end FileSystem

end DocPages
