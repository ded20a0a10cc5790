import DocPages.Proofs.Discovery.Walkable

/-!
# Cycles that are reported

A directory that is met a second time is reported as a cycle of links. It is one if a path has led back to
a directory that it has come through (`LeadsBack`). But it may also be that two paths have led to one
directory, neither of which lies below the other (`LeadsTwice`), as when two links have one target.

Main statement: these are the two cases in which a cycle is reported (`linkCycle_iff_leads`).
-/

namespace DocPages

namespace FileSystem

section Leads

variable (fs : FileSystem) (excluded : Path → Bool → Bool) (root : Path)

/-- A walkable path leads to a directory that it has come through. -/
def LeadsBack : Prop :=
  ∃ dirs names loc, dirs <+: names ∧ dirs ≠ names ∧ IsWalkable fs excluded root dirs loc ∧
    IsWalkable fs excluded root names loc

/-- Two walkable paths lead to one directory, and neither lies below the other. -/
def LeadsTwice : Prop :=
  ∃ names names' loc, ¬ names <+: names' ∧ ¬ names' <+: names ∧
    IsWalkable fs excluded root names loc ∧ IsWalkable fs excluded root names' loc

end Leads

variable {fs : FileSystem} {wanted : Path → Bool} {excluded : Path → Bool → Bool} {root p : Path}
  {base : Location}

theorem not_walksApart_iff :
    ¬ WalksApart fs excluded root ↔ LeadsBack fs excluded root ∨ LeadsTwice fs excluded root := by
  constructor
  · intro h
    simp only [WalksApart, not_forall] at h
    obtain ⟨names, names', loc, hw, hw', hne⟩ := h
    by_cases hpre : names <+: names'
    · exact Or.inl ⟨names, names', loc, hpre, hne, hw, hw'⟩
    · by_cases hpre' : names' <+: names
      · exact Or.inl ⟨names', names, loc, hpre', Ne.symm hne, hw', hw⟩
      · exact Or.inr ⟨names, names', loc, hpre, hpre', hw, hw'⟩
  · rintro (⟨dirs, names, loc, -, hne, hw, hw'⟩ | ⟨names, names', loc, hpre, -, hw, hw'⟩) happart
    · exact hne (happart dirs names loc hw hw')
    · exact hpre (happart names names' loc hw hw' ▸ List.prefix_rfl)

/-- The path that is reported leads to a directory to which a path has led that does not lie below it. -/
theorem exists_isWalkable_of_linkCycle
    (h : fs.filesBelow wanted excluded root = .error (.linkCycle p)) :
    ∃ names names' loc, p = Path.below root names ∧ IsWalkable fs excluded root names loc ∧
      IsWalkable fs excluded root names' loc ∧ ¬ names <+: names' := by
  obtain ⟨base, hroot, hcycle⟩ := filesBelow_eq_linkCycle_iff.1 h
  obtain ⟨loc, hp, hmet⟩ := exists_of_cycle_walk (pairwise_childPaths fs root base) rfl hcycle
  obtain ⟨names, hne, rfl, hw⟩ := (reaches_childPaths_iff hroot).1 hp
  rcases hmet with hl | ⟨r, hr, hpre⟩
  · obtain rfl := List.mem_singleton.1 hl
    exact ⟨names, [], loc, rfl, hw, isWalkable_nil_iff.2 hroot, fun hpre => hne (List.prefix_nil.1 hpre)⟩
  · obtain ⟨names', -, rfl, hw'⟩ := (reaches_childPaths_iff hroot).1 hr
    refine ⟨names, names', loc, rfl, hw, hw', fun hnames => hpre ?_⟩
    rwa [components_below root hw.isListed, components_below root hw'.isListed,
      List.prefix_append_right_inj]

/-- A cycle is reported exactly when a path leads back to a directory it has come through or two paths
apart lead to one directory. So where no two do, a cycle is reported only if there is one. The path that
is reported leads to a directory to which another one has led, above it or apart from it. So it is for the
source files of a plan, for which the rules of the plan say what is left out. -/
theorem linkCycle_iff_leads (wanted : Path → Bool) (excluded : Path → Bool → Bool)
    (hroot : fs.directoryAt? root = some base) :
    ((∃ p, fs.filesBelow wanted excluded root = .error (.linkCycle p)) ↔
        LeadsBack fs excluded root ∨ LeadsTwice fs excluded root) ∧
      (∀ p, fs.filesBelow wanted excluded root = .error (.linkCycle p) →
        ∃ names names' loc, p = Path.below root names ∧ IsWalkable fs excluded root names loc ∧
          IsWalkable fs excluded root names' loc ∧ ¬ names <+: names') ∧
      ∀ plan rules, plan.sourceDir = root → Rule.ofPatterns plan.exclude = .ok rules →
        sourceFiles fs plan =
          fs.filesBelow (hasExtension plan.extension) (excludes rules root) root := by
  refine ⟨?_, fun p => exists_isWalkable_of_linkCycle, ?_⟩
  · rw [exists_linkCycle_iff wanted excluded hroot, not_walksApart_iff]
  · rintro plan rules rfl hrules
    exact sourceFiles_eq_filesBelow hroot hrules

end FileSystem

open FileSystem

/-! ### Two links with one target -/

/-- The directory `/s` with two links to the directory `/t`, in which there is a file. -/
def sharedTree : FileSystem where
  entries := [(["s".toList], .directory), (["s".toList, "a".toList], .link "/t".toList),
    (["s".toList, "b".toList], .link "/t".toList), (["t".toList], .directory),
    (["t".toList, "x.php".toList], .file [])]
  workingDirectory := []
  distinct := by simp

/-- A plan for it that leaves nothing out. -/
def sharedPlan : Plan := ⟨"/s".toList, "/o".toList, "php".toList, 1000, []⟩

theorem sourceFiles_sharedTree :
    sourceFiles sharedTree sharedPlan = .error (.linkCycle "/s/b".toList) := by
  have hs : sharedTree.directoryAt? "/s".toList = some ["s".toList] := by cbv
  have ha : sharedTree.directoryAt? "/s/a".toList = some ["t".toList] := by cbv
  have hb : sharedTree.directoryAt? "/s/b".toList = some ["t".toList] := by cbv
  have hx : sharedTree.directoryAt? "/s/a/x.php".toList = none := by cbv
  have hchildren : sharedTree.childPaths "/s".toList ["s".toList] = ["/s/a".toList, "/s/b".toList] := by
    cbv
  have hshared : sharedTree.childPaths "/s/a".toList ["t".toList] = ["/s/a/x.php".toList] := by cbv
  have hnew : ["t".toList] ∉ [["s".toList]] := by decide
  show (if sharedTree.isDirectory "/s".toList then _ else _) = _
  rw [isDirectory, hs]
  show sharedTree.filesBelow (hasExtension "php".toList) (excludes [] "/s".toList) "/s".toList = _
  unfold FileSystem.filesBelow
  simp only [hs, walkFrom, hchildren]
  rw [walk_of_directory ha rfl hnew, hshared, List.singleton_append, walk_of_file hx,
    if_pos (by cbv), walk_of_entered hb rfl List.mem_cons_self]

/-- The directories that can be walked to. -/
theorem cases_of_isWalkable_sharedTree {names : List Text} {loc : Location}
    (h : IsWalkable sharedTree keepsAll "/s".toList names loc) :
    names = [] ∧ loc = ["s".toList] ∨ (∃ name, names = [name]) ∧ loc = ["t".toList] := by
  have hs : sharedTree.directoryAt? "/s".toList = some ["s".toList] := by cbv
  have ha : sharedTree.directoryAt? "/s/a".toList = some ["t".toList] := by cbv
  have hb : sharedTree.directoryAt? "/s/b".toList = some ["t".toList] := by cbv
  -- Behind a link there is nothing but a file.
  have hend {p : Path} {names : List Text} (hp : sharedTree.directoryAt? p = some ["t".toList])
      (hx : sharedTree.directoryAt? (Path.join p "x.php".toList) = none)
      (h : IsWalkable sharedTree keepsAll p names loc) : names = [] ∧ loc = ["t".toList] := by
    cases names with
    | nil => exact ⟨rfl, Option.some.inj ((isWalkable_nil_iff.1 h).symm.trans hp)⟩
    | cons name names =>
      obtain ⟨hn, hdir, -, -⟩ := isWalkable_cons_iff.1 h
      have hmem := mem_children_of_join hp hn (Or.inr hdir)
      have hchildren : sharedTree.children ["t".toList] = ["x.php".toList] := by cbv
      rw [hchildren, List.mem_singleton] at hmem
      rw [hmem, isDirectory, hx] at hdir
      contradiction
  cases names with
  | nil => exact Or.inl ⟨rfl, Option.some.inj ((isWalkable_nil_iff.1 h).symm.trans hs)⟩
  | cons name names =>
    obtain ⟨hn, hdir, -, h⟩ := isWalkable_cons_iff.1 h
    have hmem := mem_children_of_join hs hn (Or.inr hdir)
    have hchildren : sharedTree.children ["s".toList] = ["a".toList, "b".toList] := by cbv
    rw [hchildren, List.mem_cons, List.mem_singleton] at hmem
    right
    rcases hmem with rfl | rfl
    · obtain ⟨rfl, hloc⟩ := hend ha (by cbv) h
      exact ⟨⟨_, rfl⟩, hloc⟩
    · obtain ⟨rfl, hloc⟩ := hend hb (by cbv) h
      exact ⟨⟨_, rfl⟩, hloc⟩

/-- Two links with one target are reported as a cycle, although no path leads back. -/
theorem linkCycle_sharedTree :
    (∃ p, sourceFiles sharedTree sharedPlan = .error (.linkCycle p)) ∧
      ¬ LeadsBack sharedTree (excludes [] "/s".toList) "/s".toList := by
  refine ⟨⟨_, sourceFiles_sharedTree⟩, ?_⟩
  rintro ⟨dirs, names, loc, hpre, hne, hdirs, hnames⟩
  rcases cases_of_isWalkable_sharedTree hdirs with ⟨rfl, hloc⟩ | ⟨⟨d, rfl⟩, hloc⟩
  · rcases cases_of_isWalkable_sharedTree hnames with ⟨rfl, -⟩ | ⟨-, hloc'⟩
    · exact hne rfl
    · exact absurd (hloc.symm.trans hloc') (by decide)
  · rcases cases_of_isWalkable_sharedTree hnames with ⟨rfl, -⟩ | ⟨⟨n, rfl⟩, -⟩
    · simp at hpre
    · exact hne (hpre.eq_of_length rfl)

theorem linkCycle_iff_leads_sharedTree :
    sharedTree.directoryAt? "/s".toList = some ["s".toList] ∧
      sourceFiles sharedTree sharedPlan = .error (.linkCycle "/s/b".toList) ∧
      (LeadsBack sharedTree keepsAll "/s".toList ∨ LeadsTwice sharedTree keepsAll "/s".toList) ∧
      ∃ names names' loc, "/s/b".toList = Path.below "/s".toList names ∧
        IsWalkable sharedTree keepsAll "/s".toList names loc ∧
        IsWalkable sharedTree keepsAll "/s".toList names' loc ∧ ¬ names <+: names' := by
  have hs : sharedTree.directoryAt? "/s".toList = some ["s".toList] := by cbv
  have h := linkCycle_iff_leads (hasExtension "php".toList) keepsAll hs
  have hfiles : sharedTree.filesBelow (hasExtension "php".toList) keepsAll "/s".toList =
      .error (.linkCycle "/s/b".toList) := (h.2.2 sharedPlan [] rfl rfl).symm.trans sourceFiles_sharedTree
  exact ⟨hs, sourceFiles_sharedTree, h.1.1 ⟨_, hfiles⟩, h.2.1 _ hfiles⟩

end DocPages
