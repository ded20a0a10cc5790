import DocPages.Proofs.Discovery.Exact
import DocPages.Proofs.Discovery.Steps

/-!
# Walkable directories

A directory can be walked to if every name on its path leads to a directory that is not left out
(`IsWalkable`), through links or not. With links there may be infinitely many names that go on so, and
several paths may lead to one directory.

Main statement: a walk ends whatever links there are, enters no directory twice, and comes to an end
without a cycle exactly when no two walkable paths lead to one directory, in whichever order directories
list (`filesBelow_decides`).
-/

namespace DocPages

namespace FileSystem

section Walkable

variable (fs : FileSystem) (excluded : Path → Bool → Bool)

/-- From `root` the names lead to the directory at `loc`, and so do those in front of them to directories,
of which none but that of `root` may be left out. -/
structure IsWalkable (root : Path) (names : List Text) (loc : Location) : Prop where
  isListed : ∀ name ∈ names, IsListed name
  directories : ∀ dirs, dirs ≠ [] → dirs <+: names →
    fs.isDirectory (Path.below root dirs) ∧ excluded (Path.below root dirs) true = false
  directoryAt? : fs.directoryAt? (Path.below root names) = some loc

/-- No two walkable paths lead to one directory. -/
def WalksApart (root : Path) : Prop :=
  ∀ names names' loc, IsWalkable fs excluded root names loc →
    IsWalkable fs excluded root names' loc → names = names'

end Walkable

variable {fs fs' : FileSystem} {wanted : Path → Bool} {excluded : Path → Bool → Bool} {w : Walk}
  {p q root : Path} {loc l base : Location} {name : Text} {names names' : List Text}
  {todo files : List Path}

/-! ### Paths by their names -/

theorem components_below (p : Path) (h : ∀ name ∈ names, IsListed name) :
    Path.components (Path.below p names) = Path.components p ++ names := by
  induction names generalizing p with
  | nil => exact (List.append_nil _).symm
  | cons name names ih =>
    have hstep := ih (Path.join p name) fun n hn => h n (List.mem_cons_of_mem _ hn)
    rw [Path.components_join p (h name List.mem_cons_self), List.append_assoc] at hstep
    exact hstep

theorem below_injective (h : ∀ name ∈ names, IsListed name) (h' : ∀ name ∈ names', IsListed name)
    (heq : Path.below p names = Path.below p names') : names = names' := by
  have hcomponents := congrArg Path.components heq
  rwa [components_below p h, components_below p h', List.append_cancel_left_eq] at hcomponents

theorem isWalkable_nil_iff : IsWalkable fs excluded p [] l ↔ fs.directoryAt? p = some l := by
  refine ⟨fun h => h.directoryAt?, fun h => ⟨by simp, fun dirs hne hpre => ?_, h⟩⟩
  exact absurd (List.prefix_nil.1 hpre) hne

theorem isWalkable_cons_iff : IsWalkable fs excluded p (name :: names) l ↔
    IsListed name ∧ fs.isDirectory (Path.join p name) ∧ excluded (Path.join p name) true = false ∧
      IsWalkable fs excluded (Path.join p name) names l := by
  constructor
  · intro h
    obtain ⟨hdir, hx⟩ := h.directories [name] (by simp) (by simp)
    refine ⟨h.isListed name List.mem_cons_self, hdir, hx, ?_⟩
    refine ⟨fun n hn => h.isListed n (List.mem_cons_of_mem _ hn), fun dirs _ hpre => ?_, h.directoryAt?⟩
    exact h.directories (name :: dirs) (List.cons_ne_nil _ _) (List.cons_prefix_cons.2 ⟨rfl, hpre⟩)
  · rintro ⟨hn, hdir, hx, h⟩
    refine ⟨List.forall_mem_cons.2 ⟨hn, h.isListed⟩, fun dirs hne hpre => ?_, h.directoryAt?⟩
    obtain ⟨d, dirs, rfl⟩ := List.exists_cons_of_ne_nil hne
    obtain ⟨hd, hpre'⟩ := List.cons_prefix_cons.1 hpre
    subst hd
    by_cases hdirs : dirs = []
    · subst hdirs
      exact ⟨hdir, hx⟩
    · exact h.directories dirs hdirs hpre'

/-! ### What a walk gets to -/

theorem Visits.isDirectory (h : Visits fs excluded p q l) : fs.isDirectory p := by
  cases h with
  | here hd => exact Option.isSome_iff_exists.2 ⟨_, hd⟩
  | enter hd => exact Option.isSome_iff_exists.2 ⟨_, hd⟩

/-- A walk gets to a directory by the paths that can be walked. -/
theorem visits_iff (hdir : fs.isDirectory p) : Visits fs excluded p q l ↔
    excluded p true = false ∧ ∃ names, q = Path.below p names ∧ IsWalkable fs excluded p names l := by
  constructor
  · intro h
    clear hdir
    induction h with
    | here hd hx => exact ⟨hx, [], rfl, isWalkable_nil_iff.2 hd⟩
    | @enter p q loc l name hd hx hn hv ih =>
      obtain ⟨hx', names, rfl, h⟩ := ih
      exact ⟨hx, name :: names, rfl,
        isWalkable_cons_iff.2 ⟨(mem_children_iff.1 hn).1, hv.isDirectory, hx', h⟩⟩
  · rintro ⟨hx, names, rfl, h⟩
    induction names generalizing p with
    | nil => exact .here (isWalkable_nil_iff.1 h) hx
    | cons name names ih =>
      obtain ⟨hn, hdir', hx', h⟩ := isWalkable_cons_iff.1 h
      obtain ⟨loc, hd⟩ := Option.isSome_iff_exists.1 hdir
      exact .enter hd hx (mem_children_of_join hd hn (Or.inr hdir')) (ih hdir' hx' h)

/-- Through the directory at `root` a walk gets to all walkable directories but that one. -/
theorem reaches_childPaths_iff (hroot : fs.directoryAt? root = some base) :
    Reaches fs excluded (fs.childPaths root base) q l ↔
      ∃ names, names ≠ [] ∧ q = Path.below root names ∧ IsWalkable fs excluded root names l := by
  constructor
  · rintro ⟨p, hp, hv⟩
    obtain ⟨name, hn, rfl⟩ := mem_childPaths_iff.1 hp
    obtain ⟨hx, names, rfl, h⟩ := (visits_iff hv.isDirectory).1 hv
    exact ⟨name :: names, List.cons_ne_nil _ _, rfl,
      isWalkable_cons_iff.2 ⟨(mem_children_iff.1 hn).1, hv.isDirectory, hx, h⟩⟩
  · rintro ⟨names, hne, rfl, h⟩
    obtain ⟨name, names, rfl⟩ := List.exists_cons_of_ne_nil hne
    obtain ⟨hn, hdir, hx, h⟩ := isWalkable_cons_iff.1 h
    exact ⟨_, mem_childPaths_iff.2 ⟨name, mem_children_of_join hroot hn (Or.inr hdir), rfl⟩,
      (visits_iff hdir).2 ⟨hx, names, rfl, h⟩⟩

theorem visitsOnce_iff (hroot : fs.directoryAt? root = some base) :
    VisitsOnce fs excluded [base] (fs.childPaths root base) ↔ WalksApart fs excluded root := by
  have hreaches {q : Path} {l : Location} :
      Reaches fs excluded (fs.childPaths root base) q l ↔
        ∃ names, names ≠ [] ∧ q = Path.below root names ∧ IsWalkable fs excluded root names l :=
    reaches_childPaths_iff hroot
  have hself : IsWalkable fs excluded root [] base := isWalkable_nil_iff.2 hroot
  constructor
  · rintro ⟨hfresh, hunique⟩ names names' l h h'
    -- Only the names of `root` itself are empty, and no others lead to its directory.
    have hnil {ns : List Text} (h : IsWalkable fs excluded root ns base) : ns = [] := by
      by_contra hne
      exact hfresh _ _ (hreaches.2 ⟨ns, hne, rfl, h⟩) List.mem_cons_self
    by_cases hl : l = base
    · subst hl
      rw [hnil h, hnil h']
    · have hne {ns : List Text} (h : IsWalkable fs excluded root ns l) : ns ≠ [] := by
        rintro rfl
        exact hl (Option.some.inj ((isWalkable_nil_iff.1 h).symm.trans hroot))
      have heq := hunique _ _ l (hreaches.2 ⟨names, hne h, rfl, h⟩) (hreaches.2 ⟨names', hne h', rfl, h'⟩)
      exact below_injective h.isListed h'.isListed heq
  · intro happart
    refine ⟨fun q l hq hl => ?_, fun q q' l hq hq' => ?_⟩
    · obtain ⟨names, hne, rfl, h⟩ := hreaches.1 hq
      rw [List.mem_singleton.1 hl] at h
      exact hne (happart names [] base h hself)
    · obtain ⟨names, -, rfl, h⟩ := hreaches.1 hq
      obtain ⟨names', -, rfl, h'⟩ := hreaches.1 hq'
      rw [happart names names' l h h']

/-- A walk that is not ended by a cycle enters the directories that it gets to. -/
theorem mem_entered_walk_iff (h : (fs.walk wanted excluded w todo).cycle = none) :
    l ∈ (fs.walk wanted excluded w todo).entered ↔
      l ∈ w.entered ∨ ∃ q, Reaches fs excluded todo q l := by
  fun_induction fs.walk wanted excluded w todo with
  | case1 => simp [Reaches]
  | case2 w p rest loc hp hx ih =>
    have hnot : ∀ loc, fs.directoryAt? p = some loc → excluded p true := fun _ _ => hx
    rw [ih h]
    simp only [reaches_cons_of_not hnot]
  | case3 => simp at h
  | case4 w p rest loc hp hx hv ih =>
    have hiff {q : Path} : Reaches fs excluded (p :: rest) q l ↔
        q = p ∧ l = loc ∨ Reaches fs excluded (fs.childPaths p loc ++ rest) q l :=
      reaches_cons_iff hp (by simpa using hx)
    rw [ih h]
    simp only [hiff, List.mem_cons, exists_or, exists_and_right, exists_eq, true_and, or_assoc,
      or_left_comm]
  | case5 w p rest hp hf ih =>
    have hnot : ∀ loc, fs.directoryAt? p = some loc → excluded p true := by simp [hp]
    rw [ih h]
    simp only [reaches_cons_of_not hnot]
  | case6 w p rest hp hf ih =>
    have hnot : ∀ loc, fs.directoryAt? p = some loc → excluded p true := by simp [hp]
    rw [ih h]
    simp only [reaches_cons_of_not hnot]

theorem mem_entered_walkFrom_iff (hroot : fs.directoryAt? root = some base)
    (h : (fs.walkFrom wanted excluded root base).cycle = none) :
    l ∈ (fs.walkFrom wanted excluded root base).entered ↔ ∃ names, IsWalkable fs excluded root names l := by
  rw [walkFrom, mem_entered_walk_iff h, List.mem_singleton]
  simp only [reaches_childPaths_iff hroot]
  constructor
  · rintro (rfl | ⟨q, names, -, -, hw⟩)
    · exact ⟨[], isWalkable_nil_iff.2 hroot⟩
    · exact ⟨names, hw⟩
  · rintro ⟨names, hw⟩
    by_cases hne : names = []
    · subst hne
      exact Or.inl (Option.some.inj ((isWalkable_nil_iff.1 hw).symm.trans hroot))
    · exact Or.inr ⟨_, names, hne, rfl, hw⟩

/-! ### What comes of a walk -/

theorem filesBelow_eq_linkCycle_iff : fs.filesBelow wanted excluded root = .error (.linkCycle p) ↔
    ∃ base, fs.directoryAt? root = some base ∧
      (fs.walkFrom wanted excluded root base).cycle = some p := by
  unfold filesBelow
  cases fs.directoryAt? root with
  | none => simp
  | some base => cases hcycle : (fs.walkFrom wanted excluded root base).cycle <;> simp [hcycle]

section Outcome

variable (wanted : Path → Bool) (excluded : Path → Bool → Bool) (hroot : fs.directoryAt? root = some base)
include hroot

theorem cycle_eq_none_iff_walksApart :
    (fs.walkFrom wanted excluded root base).cycle = none ↔ WalksApart fs excluded root := by
  rw [cycle_walkFrom_eq_none_iff, visitsOnce_iff hroot]

theorem exists_filesBelow_iff :
    (∃ files, fs.filesBelow wanted excluded root = .ok files) ↔ WalksApart fs excluded root := by
  rw [← cycle_eq_none_iff_walksApart wanted excluded hroot]
  constructor
  · rintro ⟨files, h⟩
    obtain ⟨base', hroot', hnone, -⟩ := filesBelow_eq_ok_iff.1 h
    rw [hroot, Option.some.injEq] at hroot'
    rwa [hroot']
  · intro hnone
    exact ⟨_, filesBelow_eq_ok_iff.2 ⟨base, hroot, hnone, rfl⟩⟩

theorem exists_linkCycle_iff :
    (∃ p, fs.filesBelow wanted excluded root = .error (.linkCycle p)) ↔
      ¬ WalksApart fs excluded root := by
  rw [← cycle_eq_none_iff_walksApart wanted excluded hroot, ← Ne, Option.ne_none_iff_exists']
  refine exists_congr fun p => ⟨fun h => ?_, fun h => ?_⟩
  · obtain ⟨base', hroot', hcycle⟩ := filesBelow_eq_linkCycle_iff.1 h
    rw [hroot, Option.some.injEq] at hroot'
    rwa [hroot']
  · exact filesBelow_eq_linkCycle_iff.2 ⟨base, hroot, h⟩

end Outcome

theorem Extends.isWalkable (h : Extends fs fs') (hw : IsWalkable fs excluded root names l) :
    IsWalkable fs' excluded root names l where
  isListed := hw.isListed
  directories dirs hne hpre := by
    obtain ⟨hdir, hx⟩ := hw.directories dirs hne hpre
    exact ⟨h.isDirectory hdir, hx⟩
  directoryAt? := h.directoryAt? hw.directoryAt?

theorem Relists.walksApart_iff (h : Relists fs fs') :
    WalksApart fs' excluded root ↔ WalksApart fs excluded root :=
  ⟨fun ha ns ns' l hn hn' => ha ns ns' l (h.toExtends.isWalkable hn) (h.toExtends.isWalkable hn'),
    fun ha ns ns' l hn hn' =>
      ha ns ns' l (h.symm.toExtends.isWalkable hn) (h.symm.toExtends.isWalkable hn')⟩

end FileSystem

open FileSystem

theorem sourceFiles_eq_filesBelow {fs : FileSystem} {plan : Plan} {base : Location} {rules : List Rule}
    (hroot : fs.directoryAt? plan.sourceDir = some base) (hrules : Rule.ofPatterns plan.exclude = .ok rules) :
    sourceFiles fs plan =
      fs.filesBelow (hasExtension plan.extension) (excludes rules plan.sourceDir) plan.sourceDir := by
  have hdir : fs.isDirectory plan.sourceDir := Option.isSome_iff_exists.2 ⟨base, hroot⟩
  rw [sourceFiles, if_pos hdir, hrules]

/-- A walk through a directory comes to its end in no more steps than there are entries, whatever links
there are, and enters no directory twice. Files are found exactly when no two walkable paths lead to one
directory, and then the walk has been in all that they lead to; otherwise a cycle is reported. In whichever
order directories list, it is the same. So it is for the source files of a plan, for which the rules of the
plan say what is left out. -/
theorem filesBelow_decides {fs : FileSystem} {root : Path} {base : Location} (wanted : Path → Bool)
    (excluded : Path → Bool → Bool) (hroot : fs.directoryAt? root = some base) :
    (∀ n w todo, Steps fs wanted excluded n ⟨[base], [], none⟩ (fs.childPaths root base) w todo →
        n ≤ fs.entries.length ∧ EnteredOnce fs w.entered ∧
          (todo ≠ [] → ∃ w' todo', Step fs wanted excluded w todo w' todo')) ∧
      (∃ n, Steps fs wanted excluded n ⟨[base], [], none⟩ (fs.childPaths root base)
        (fs.walkFrom wanted excluded root base) []) ∧
      (WalksApart fs excluded root → ∀ l, l ∈ (fs.walkFrom wanted excluded root base).entered ↔
        ∃ names, IsWalkable fs excluded root names l) ∧
      ((∃ files, fs.filesBelow wanted excluded root = .ok files) ↔ WalksApart fs excluded root) ∧
      ((∃ p, fs.filesBelow wanted excluded root = .error (.linkCycle p)) ↔
        ¬ WalksApart fs excluded root) ∧
      (∀ fs', Relists fs fs' →
        (∀ files, fs'.filesBelow wanted excluded root = .ok files ↔
          fs.filesBelow wanted excluded root = .ok files) ∧
        ((∃ p, fs'.filesBelow wanted excluded root = .error (.linkCycle p)) ↔
          ∃ p, fs.filesBelow wanted excluded root = .error (.linkCycle p))) ∧
      ∀ plan rules, plan.sourceDir = root → Rule.ofPatterns plan.exclude = .ok rules →
        sourceFiles fs plan =
          fs.filesBelow (hasExtension plan.extension) (excludes rules root) root := by
  refine ⟨fun n w todo h => ⟨h.length_le, ?_, exists_step fs wanted excluded w⟩,
    exists_steps_walk fs wanted excluded _ _, fun happart l => ?_,
    exists_filesBelow_iff wanted excluded hroot, exists_linkCycle_iff wanted excluded hroot,
    fun fs' h => ⟨fun files => ?_, ?_⟩, ?_⟩
  · have hstart : EnteredOnce fs [base] := by
      obtain ⟨-, way⟩ := resolve_eq_ok_iff.1 (directoryAt?_eq_some_iff.1 hroot)
      exact ⟨List.nodup_singleton base, fun l hl => List.mem_singleton.1 hl ▸ way.holds⟩
    exact h.enteredOnce hstart
  · exact mem_entered_walkFrom_iff hroot ((cycle_eq_none_iff_walksApart wanted excluded hroot).2 happart)
  · exact ⟨h.symm.filesBelow_eq, h.filesBelow_eq⟩
  · rw [exists_linkCycle_iff wanted excluded (h.toExtends.directoryAt? hroot),
      exists_linkCycle_iff wanted excluded hroot, h.walksApart_iff]
  · rintro plan rules rfl hrules
    exact sourceFiles_eq_filesBelow hroot hrules

/-- Nothing is left out. -/
def keepsAll (_ : Path) (_ : Bool) : Bool := false

/-- The directory `/s` with a link in it that leads back to the root directory. -/
def loopTree : FileSystem where
  entries := [(["s".toList], .directory), (["s".toList, "l".toList], .link "..".toList)]
  workingDirectory := []
  distinct := by simp

theorem not_walksApart_loopTree : ¬ WalksApart loopTree keepsAll "/s".toList := by
  intro happart
  have hs : loopTree.directoryAt? "/s".toList = some ["s".toList] := by cbv
  have hl : loopTree.directoryAt? "/s/l".toList = some [] := by cbv
  have hagain : loopTree.directoryAt? "/s/l/s".toList = some ["s".toList] := by cbv
  have hwalk : IsWalkable loopTree keepsAll "/s".toList ["l".toList, "s".toList] ["s".toList] := by
    refine isWalkable_cons_iff.2
      ⟨isName_iff.1 (by decide), Option.isSome_iff_exists.2 ⟨_, hl⟩, rfl, ?_⟩
    refine isWalkable_cons_iff.2
      ⟨isName_iff.1 (by decide), Option.isSome_iff_exists.2 ⟨_, hagain⟩, rfl, ?_⟩
    exact isWalkable_nil_iff.2 hagain
  have heq := happart [] _ _ (isWalkable_nil_iff.2 hs) hwalk
  contradiction

theorem filesBelow_decides_loopTree :
    loopTree.directoryAt? "/s".toList = some ["s".toList] ∧
      (∃ n, Steps loopTree (hasExtension "php".toList) keepsAll n ⟨[["s".toList]], [], none⟩
        (loopTree.childPaths "/s".toList ["s".toList])
        (loopTree.walkFrom (hasExtension "php".toList) keepsAll "/s".toList ["s".toList]) []) ∧
      ∃ p, loopTree.filesBelow (hasExtension "php".toList) keepsAll "/s".toList =
        .error (.linkCycle p) := by
  have hs : loopTree.directoryAt? "/s".toList = some ["s".toList] := by cbv
  have h := filesBelow_decides (hasExtension "php".toList) keepsAll hs
  exact ⟨hs, h.2.1, h.2.2.2.2.1.2 not_walksApart_loopTree⟩

end DocPages
