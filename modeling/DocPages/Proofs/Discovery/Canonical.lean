import DocPages.Proofs.Discovery.Steps

/-!
# Canonical paths

A walk keeps the locations of the directories that it has entered. It could as well keep their
canonical paths: a path that leads to a directory has one (`canonicalPath?_of_directoryAt?`), whose names
are those of the location (`components_pathOf`), as no name that leads down is empty or holds a slash.

Main statement: a walk that comes to a directory has entered it before exactly when it has entered one
with the same canonical path (`Steps.mem_entered_iff`).
-/

namespace DocPages

namespace FileSystem

/-- The names of the location can stand on a path, each leading one directory down. -/
def HasPathNames (loc : Location) : Prop := ∀ name ∈ loc, IsProper name ∧ '/' ∉ name

variable {fs : FileSystem} {aim : Aim} {wanted : Path → Bool} {excluded : Path → Bool → Bool}
  {w w' : Walk} {todo todo' : List Path} {p root : Path} {here loc base : Location}
  {names : List Text} {name : Text} {links n : Nat}

/-! ### The names of a location -/

theorem not_mem_of_mem_splitOn {c : Char} {t : Text} (h : name ∈ t.splitOn c) : c ∉ name := by
  induction t generalizing name with
  | nil =>
    obtain rfl : name = [] := by simpa using h
    exact List.not_mem_nil
  | cons d t ih =>
    rw [List.splitOn_cons_eq_if_modifyHead] at h
    split at h
    · rcases List.mem_cons.1 h with rfl | h
      · exact List.not_mem_nil
      · exact ih h
    · next hd =>
      obtain ⟨first, rest, hsplit⟩ := List.exists_cons_of_ne_nil (List.splitOn_ne_nil c t)
      rw [hsplit, List.modifyHead_cons] at h
      have hfirst : c ∉ first := ih (by simp [hsplit])
      rcases List.mem_cons.1 h with rfl | h
      · exact List.not_mem_cons_of_ne_of_not_mem (fun hc => hd (by simp [hc])) hfirst
      · exact ih (by simp [hsplit, h])

theorem HasPathNames.dropLast (h : HasPathNames loc) : HasPathNames loc.dropLast :=
  fun name hn => h name (List.dropLast_subset loc hn)

theorem HasPathNames.concat (h : HasPathNames loc) (hname : IsProper name) (hslash : '/' ∉ name) :
    HasPathNames (loc ++ [name]) := by
  intro n hn
  rcases List.mem_append.1 hn with hn | hn
  · exact h n hn
  · rw [List.mem_singleton.1 hn]
    exact ⟨hname, hslash⟩

theorem HasPathNames.startOf (h : HasPathNames here) (p : Path) : HasPathNames (startOf here p) := by
  unfold FileSystem.startOf
  split
  · exact fun _ hn => absurd hn List.not_mem_nil
  · exact h

/-- The names on the way to a directory are names without slashes, also behind links. -/
theorem Way.hasPathNames (way : Way fs aim links here names (.directory loc)) (hhere : HasPathNames here)
    (hnames : ∀ name ∈ names, '/' ∉ name) : HasPathNames loc := by
  generalize hp : Place.directory loc = place at way
  induction way with
  | directory =>
    cases hp
    exact hhere
  | file => contradiction
  | vacant => contradiction
  | stay _ _ _ ih => exact ih hhere (List.forall_mem_of_forall_mem_cons hnames) hp
  | up _ _ ih => exact ih hhere.dropLast (List.forall_mem_of_forall_mem_cons hnames) hp
  | link _ _ _ _ ih =>
    refine ih (hhere.startOf _) (fun name hn => ?_) hp
    rcases List.mem_append.1 hn with hn | hn
    · exact not_mem_of_mem_splitOn hn
    · exact hnames name (List.mem_cons_of_mem _ hn)
  | down _ hn _ _ _ ih =>
    have hname := hhere.concat hn.toIsProper (hnames _ List.mem_cons_self)
    exact ih hname (List.forall_mem_of_forall_mem_cons hnames) hp

theorem hasPathNames_of_directoryAt? (hfs : HasPathNames fs.workingDirectory)
    (h : fs.directoryAt? p = some loc) : HasPathNames loc :=
  (resolve_eq_ok_iff.1 (directoryAt?_eq_some_iff.1 h)).2.hasPathNames (hfs.startOf p)
    fun _ => not_mem_of_mem_splitOn

/-! ### Canonical paths tell locations -/

/-- The names on a canonical path are those of the location. -/
theorem components_pathOf (h : HasPathNames loc) : Path.components (pathOf loc) = loc := by
  by_cases hnil : loc = []
  · rw [hnil]
    rfl
  have hslash : ∀ name ∈ loc, '/' ∉ name := fun name hn => (h name hn).2
  have hsplit : (pathOf loc).splitOn '/' = [] :: loc := by
    rw [pathOf, ← List.nil_append ('/' :: _), List.splitOn_append_cons_self_of_not_mem List.not_mem_nil,
      List.splitOn_intercalate '/' hslash hnil]
  have hkeep : ∀ name ∈ loc, (!name.isEmpty && name != ['.']) = true := by
    intro name hn
    obtain ⟨hne, hpoint⟩ := not_or.1 (h name hn).1.ne_gap
    simp [hne, hpoint]
  rw [Path.components, hsplit, List.filter_cons_of_neg (by simp), List.filter_eq_self.2 hkeep]

theorem pathOf_inj (h : HasPathNames loc) (hb : HasPathNames base) :
    pathOf loc = pathOf base ↔ loc = base := by
  refine ⟨fun heq => ?_, congrArg pathOf⟩
  rw [← components_pathOf h, heq, components_pathOf hb]

/-! ### What a walk has entered -/

theorem Step.hasPathNames (hfs : HasPathNames fs.workingDirectory)
    (h : Step fs wanted excluded w todo w' todo') (hw : ∀ l ∈ w.entered, HasPathNames l) :
    ∀ l ∈ w'.entered, HasPathNames l := by
  cases h with
  | leave => exact hw
  | cycle => exact hw
  | enter hd => exact List.forall_mem_cons.2 ⟨hasPathNames_of_directoryAt? hfs hd, hw⟩
  | collect => exact hw
  | pass => exact hw

theorem Steps.hasPathNames (hfs : HasPathNames fs.workingDirectory)
    (h : Steps fs wanted excluded n w todo w' todo') (hw : ∀ l ∈ w.entered, HasPathNames l) :
    ∀ l ∈ w'.entered, HasPathNames l := by
  induction h with
  | refl => exact hw
  | head h _ ih => exact ih (h.hasPathNames hfs hw)

/-- A walk that comes to a directory has entered it before exactly when it has entered one with the same
canonical path. -/
theorem Steps.mem_entered_iff (hfs : HasPathNames fs.workingDirectory)
    (hroot : fs.directoryAt? root = some base)
    (h : Steps fs wanted excluded n ⟨[base], [], none⟩ (fs.childPaths root base) w todo)
    (hp : fs.directoryAt? p = some loc) :
    loc ∈ w.entered ↔ (fs.canonicalPath? p).getD p ∈ w.entered.map pathOf := by
  have hentered : ∀ l ∈ w.entered, HasPathNames l :=
    h.hasPathNames hfs (List.forall_mem_singleton.2 (hasPathNames_of_directoryAt? hfs hroot))
  have hloc : HasPathNames loc := hasPathNames_of_directoryAt? hfs hp
  rw [canonicalPath?_of_directoryAt? hp, Option.getD_some, List.mem_map]
  constructor
  · intro hmem
    exact ⟨loc, hmem, rfl⟩
  · rintro ⟨l, hmem, heq⟩
    rwa [← (pathOf_inj (hentered l hmem) hloc).1 heq]

end FileSystem

end DocPages
