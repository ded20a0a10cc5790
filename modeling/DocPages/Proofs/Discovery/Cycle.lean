import DocPages.Proofs.Discovery.Walk

/-!
# When a walk meets a directory twice

A walk is ended by the first directory that it meets for the second time. Which directories it would
enter can be said without it: a path leads to a directory (`Visits`) through directories that are not left
out. As the paths of a walk differ, a directory is met twice when two of them lead to it.

Main statements: no cycle ends a walk exactly when its paths lead to distinct directories, none of which
has been entered before (`cycle_walk_eq_none_iff`), and the path at which one does leads to a directory
that another path has led to (`exists_of_cycle_walk`).
-/

namespace DocPages

namespace FileSystem

section Visits

variable (fs : FileSystem) (excluded : Path → Bool → Bool)

/-- From one path a walk gets to the directory at a location, by another path. -/
inductive Visits : Path → Path → Location → Prop
  | here {p loc} (hd : fs.directoryAt? p = some loc) (hx : excluded p true = false) :
      Visits p p loc
  | enter {p q loc l name} (hd : fs.directoryAt? p = some loc) (hx : excluded p true = false)
      (hn : name ∈ fs.children loc) (h : Visits (Path.join p name) q l) : Visits p q l

/-- From some of the paths a walk gets to the directory at a location. -/
def Reaches (todo : List Path) (q : Path) (l : Location) : Prop :=
  ∃ p ∈ todo, Visits fs excluded p q l

/-- A walk through the paths gets to each directory by one path only, and to none that has been
entered. -/
structure VisitsOnce (entered : List Location) (todo : List Path) : Prop where
  fresh : ∀ q l, Reaches fs excluded todo q l → l ∉ entered
  unique : ∀ q q' l, Reaches fs excluded todo q l → Reaches fs excluded todo q' l → q = q'

end Visits

variable {fs : FileSystem} {wanted : Path → Bool} {excluded : Path → Bool → Bool} {w : Walk}
  {p q : Path} {rest todo : List Path} {loc l : Location} {entered : List Location}

/-- The paths by which a walk goes on lie below the one it has come by. -/
theorem Visits.isPrefix (h : Visits fs excluded p q l) : Path.components p <+: Path.components q := by
  induction h with
  | here => exact List.prefix_rfl
  | @enter p q loc l name _ _ hn _ ih =>
    rw [Path.components_join p (mem_children_iff.1 hn).1] at ih
    exact (List.prefix_append _ _).trans ih

/-! ### One path more -/

theorem reaches_cons : Reaches fs excluded (p :: rest) q l ↔
    Visits fs excluded p q l ∨ Reaches fs excluded rest q l := by
  simp only [Reaches, List.mem_cons, or_and_right, exists_or, exists_eq_left]

theorem reaches_append {before : List Path} : Reaches fs excluded (before ++ rest) q l ↔
    Reaches fs excluded before q l ∨ Reaches fs excluded rest q l := by
  simp only [Reaches, List.mem_append, or_and_right, exists_or]

theorem visits_iff_of_directory (hd : fs.directoryAt? p = some loc) (hx : excluded p true = false) :
    Visits fs excluded p q l ↔
      q = p ∧ l = loc ∨ Reaches fs excluded (fs.childPaths p loc) q l := by
  constructor
  · intro h
    cases h with
    | here hd' =>
      rw [hd, Option.some.injEq] at hd'
      exact Or.inl ⟨rfl, hd'.symm⟩
    | enter hd' _ hn h =>
      rw [hd, Option.some.injEq] at hd'
      subst hd'
      exact Or.inr ⟨_, mem_childPaths_iff.2 ⟨_, hn, rfl⟩, h⟩
  · rintro (⟨rfl, rfl⟩ | ⟨r, hr, h⟩)
    · exact .here hd hx
    · obtain ⟨name, hn, rfl⟩ := mem_childPaths_iff.1 hr
      exact .enter hd hx hn h

/-- A path that leads to no directory, or to one that is left out, does not count. -/
theorem reaches_cons_of_not (h : ∀ loc, fs.directoryAt? p = some loc → excluded p true) :
    Reaches fs excluded (p :: rest) q l ↔ Reaches fs excluded rest q l := by
  rw [reaches_cons, or_iff_right]
  intro hv
  cases hv with
  | here hd hx => simp [h _ hd] at hx
  | enter hd hx => simp [h _ hd] at hx

theorem visitsOnce_cons_of_not (h : ∀ loc, fs.directoryAt? p = some loc → excluded p true) :
    VisitsOnce fs excluded entered (p :: rest) ↔ VisitsOnce fs excluded entered rest := by
  have hiff {q : Path} {l : Location} :
      Reaches fs excluded (p :: rest) q l ↔ Reaches fs excluded rest q l := reaches_cons_of_not h
  constructor
  · rintro ⟨hfresh, hunique⟩
    exact ⟨fun q l hq => hfresh q l (hiff.2 hq),
      fun q q' l hq hq' => hunique q q' l (hiff.2 hq) (hiff.2 hq')⟩
  · rintro ⟨hfresh, hunique⟩
    exact ⟨fun q l hq => hfresh q l (hiff.1 hq),
      fun q q' l hq hq' => hunique q q' l (hiff.1 hq) (hiff.1 hq')⟩

/-! ### Into a directory -/

section Enter

variable (hap : (p :: rest).Pairwise Apart) (hd : fs.directoryAt? p = some loc)
  (hx : excluded p true = false)
include hap

/-- Once it is in a directory, a walk comes neither back to the path of it nor to one above. -/
theorem not_isPrefix_of_reaches (h : Reaches fs excluded (fs.childPaths p loc ++ rest) q l) :
    ¬ Path.components q <+: Path.components p := by
  intro hpre
  rcases reaches_append.1 h with ⟨r, hr, h⟩ | ⟨r, hr, h⟩
  · obtain ⟨name, hn, rfl⟩ := mem_childPaths_iff.1 hr
    have hlength := (h.isPrefix.trans hpre).length_le
    rw [Path.components_join p (mem_children_iff.1 hn).1, List.length_append,
      List.length_singleton] at hlength
    omega
  · exact ((List.pairwise_cons.1 hap).1 r hr).2 (h.isPrefix.trans hpre)

theorem not_reaches_self : ¬ Reaches fs excluded (fs.childPaths p loc ++ rest) p l :=
  fun h => not_isPrefix_of_reaches hap h List.prefix_rfl

include hd hx

omit hap in
theorem reaches_cons_iff : Reaches fs excluded (p :: rest) q l ↔
    q = p ∧ l = loc ∨ Reaches fs excluded (fs.childPaths p loc ++ rest) q l := by
  rw [reaches_cons, visits_iff_of_directory hd hx, reaches_append, or_assoc]

/-- The entries of a directory take its place when it is entered. -/
theorem visitsOnce_cons_iff (hv : loc ∉ entered) :
    VisitsOnce fs excluded entered (p :: rest) ↔
      VisitsOnce fs excluded (loc :: entered) (fs.childPaths p loc ++ rest) := by
  have hiff {q : Path} {l : Location} : Reaches fs excluded (p :: rest) q l ↔
      q = p ∧ l = loc ∨ Reaches fs excluded (fs.childPaths p loc ++ rest) q l :=
    reaches_cons_iff hd hx
  constructor
  · rintro ⟨hfresh, hunique⟩
    refine ⟨fun q l hq hm => ?_,
      fun q q' l hq hq' => hunique q q' l (hiff.2 (Or.inr hq)) (hiff.2 (Or.inr hq'))⟩
    rcases List.mem_cons.1 hm with rfl | hm
    · obtain rfl := hunique q p l (hiff.2 (Or.inr hq)) (hiff.2 (Or.inl ⟨rfl, rfl⟩))
      exact not_reaches_self hap hq
    · exact hfresh q l (hiff.2 (Or.inr hq)) hm
  · rintro ⟨hfresh, hunique⟩
    refine ⟨fun q l hq => ?_, fun q q' l hq hq' => ?_⟩
    · rcases hiff.1 hq with ⟨-, rfl⟩ | hq
      · exact hv
      · exact fun hm => hfresh q l hq (List.mem_cons_of_mem _ hm)
    · rcases hiff.1 hq with ⟨rfl, rfl⟩ | hq <;> rcases hiff.1 hq' with ⟨rfl, heq⟩ | hq'
      · rfl
      · exact absurd List.mem_cons_self (hfresh q' _ hq')
      · exact absurd (heq ▸ List.mem_cons_self) (hfresh q _ hq)
      · exact hunique q q' l hq hq'

end Enter

/-- No cycle ends a walk when it gets to each directory once. -/
theorem cycle_walk_eq_none_iff (hap : todo.Pairwise Apart) :
    (fs.walk wanted excluded w todo).cycle = none ↔
      w.cycle = none ∧ VisitsOnce fs excluded w.entered todo := by
  fun_induction fs.walk wanted excluded w todo with
  | case1 w =>
    refine (and_iff_left ⟨?_, ?_⟩).symm
    · rintro q l ⟨p, hp, -⟩
      simp at hp
    · rintro q q' l ⟨p, hp, -⟩
      simp at hp
  | case2 w p rest loc hp hx ih =>
    have hnot : ∀ loc, fs.directoryAt? p = some loc → excluded p true := fun _ _ => hx
    rw [ih hap.tail, visitsOnce_cons_of_not hnot]
  | case3 w p rest loc hp hx hv =>
    have hreaches : Reaches fs excluded (p :: rest) p loc :=
      ⟨p, List.mem_cons_self, .here hp (by simpa using hx)⟩
    refine iff_of_false (by simp) fun h => ?_
    exact h.2.fresh p loc hreaches hv
  | case4 w p rest loc hp hx hv ih =>
    rw [ih (pairwise_childPaths_append hap loc),
      visitsOnce_cons_iff hap hp (by simpa using hx) hv]
  | case5 w p rest hp hf ih =>
    have hnot : ∀ loc, fs.directoryAt? p = some loc → excluded p true := by simp [hp]
    rw [ih hap.tail, visitsOnce_cons_of_not hnot]
  | case6 w p rest hp hf ih =>
    have hnot : ∀ loc, fs.directoryAt? p = some loc → excluded p true := by simp [hp]
    rw [ih hap.tail, visitsOnce_cons_of_not hnot]

/-- The path at which a cycle ends a walk leads to a directory that has been entered, from the start or by
a path that does not lie below. -/
theorem exists_of_cycle_walk (hap : todo.Pairwise Apart) (hw : w.cycle = none)
    (h : (fs.walk wanted excluded w todo).cycle = some q) :
    ∃ l, Reaches fs excluded todo q l ∧
      (l ∈ w.entered ∨ ∃ r, Reaches fs excluded todo r l ∧
        ¬ Path.components q <+: Path.components r) := by
  fun_induction fs.walk wanted excluded w todo with
  | case1 => simp [hw] at h
  | case2 w p rest loc hp hx ih =>
    have hnot : ∀ loc, fs.directoryAt? p = some loc → excluded p true := fun _ _ => hx
    simp only [reaches_cons_of_not hnot]
    exact ih hap.tail hw h
  | case3 w p rest loc hp hx hv =>
    obtain rfl : p = q := Option.some.inj h
    exact ⟨loc, ⟨p, List.mem_cons_self, .here hp (by simpa using hx)⟩, Or.inl hv⟩
  | case4 w p rest loc hp hx hv ih =>
    have hcons {q : Path} {l : Location} (hq : Reaches fs excluded (fs.childPaths p loc ++ rest) q l) :
        Reaches fs excluded (p :: rest) q l := (reaches_cons_iff hp (by simpa using hx)).2 (Or.inr hq)
    obtain ⟨l, hq, hmet⟩ := ih (pairwise_childPaths_append hap loc) hw h
    refine ⟨l, hcons hq, ?_⟩
    rcases hmet with hl | ⟨r, hr, hpre⟩
    · rcases List.mem_cons.1 hl with rfl | hl
      · exact Or.inr ⟨p, ⟨p, List.mem_cons_self, .here hp (by simpa using hx)⟩,
          not_isPrefix_of_reaches hap hq⟩
      · exact Or.inl hl
    · exact Or.inr ⟨r, hcons hr, hpre⟩
  | case5 w p rest hp hf ih =>
    have hnot : ∀ loc, fs.directoryAt? p = some loc → excluded p true := by simp [hp]
    simp only [reaches_cons_of_not hnot]
    exact ih hap.tail hw h
  | case6 w p rest hp hf ih =>
    have hnot : ∀ loc, fs.directoryAt? p = some loc → excluded p true := by simp [hp]
    simp only [reaches_cons_of_not hnot]
    exact ih hap.tail hw h

theorem cycle_walkFrom_eq_none_iff (root : Path) (base : Location) :
    (fs.walkFrom wanted excluded root base).cycle = none ↔
      VisitsOnce fs excluded [base] (fs.childPaths root base) := by
  rw [walkFrom, cycle_walk_eq_none_iff (pairwise_childPaths fs root base)]
  exact and_iff_right rfl

end FileSystem

end DocPages
