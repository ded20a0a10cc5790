import DocPages.FileSystem.Change
import DocPages.Proofs.FileSystem.Extend
import Mathlib.Data.List.DropRight

/-!
# Making directories

Making a directory and the missing ones above it is a row of steps (`MakesDirectories`), each of which
adds one name to a directory that is there. Whether the row gets to its end or not, all else stays as
it was.

Main statements: `makeDirectories` goes such a row of steps (`makesDirectories_makeDirectories`), all
there was before is there afterwards (`MakesDirectories.addsDirectories`), and what has been made needs
not be made again (`makeDirectories_again`).
-/

namespace DocPages

namespace FileSystem

/-- Directories have been made one after the other, each one in a directory. -/
inductive MakesDirectories (fs : FileSystem) : FileSystem → Prop
  | refl : MakesDirectories fs fs
  | tail {fs' loc name} (h : MakesDirectories fs fs') (hd : fs'.node? loc = some .directory)
      (hv : fs'.node? (loc ++ [name]) = none) :
      MakesDirectories fs (fs'.put (loc ++ [name]) .directory)

/-- All there was is still there, and what is new are directories. -/
structure AddsDirectories (fs fs' : FileSystem) : Prop where
  workingDirectory : fs'.workingDirectory = fs.workingDirectory
  node : ∀ loc, fs'.node? loc = fs.node? loc ∨
    fs.node? loc = none ∧ fs'.node? loc = some .directory

variable {fs fs' fs'' : FileSystem} {loc : Location} {name : Text} {p : Path}

theorem MakesDirectories.trans (h : MakesDirectories fs fs') (h' : MakesDirectories fs' fs'') :
    MakesDirectories fs fs'' := by
  induction h' with
  | refl => exact h
  | tail _ hd hv ih => exact .tail ih hd hv

theorem AddsDirectories.refl (fs : FileSystem) : AddsDirectories fs fs := ⟨rfl, fun _ => Or.inl rfl⟩

theorem MakesDirectories.addsDirectories (h : MakesDirectories fs fs') : AddsDirectories fs fs' := by
  induction h with
  | refl => exact .refl fs
  | @tail fs' loc name h hd hv ih =>
    refine ⟨ih.workingDirectory, fun l => ?_⟩
    rw [node?_put _ _ _ _ (by simp)]
    by_cases hl : l = loc ++ [name]
    · rw [if_pos hl]
      right
      rcases ih.node l with hold | ⟨hnone, hnew⟩
      · exact ⟨by rw [← hold, hl, hv], rfl⟩
      · exact ⟨hnone, rfl⟩
    · rw [if_neg hl]
      exact ih.node l

namespace AddsDirectories

/-- What was there is still there. -/
theorem node?_eq (h : AddsDirectories fs fs') {node : Node} (hn : fs.node? loc = some node) :
    fs'.node? loc = some node := by
  rcases h.node loc with hold | ⟨hnone, -⟩
  · rw [hold, hn]
  · rw [hnone] at hn
    contradiction

theorem toExtends (h : AddsDirectories fs fs') : Extends fs fs' where
  workingDirectory := h.workingDirectory
  directory := h.node?_eq
  link := h.node?_eq
  file hc := ⟨_, h.node?_eq hc⟩

theorem link_iff (h : AddsDirectories fs fs') {target : Path} :
    fs'.node? loc = some (.link target) ↔ fs.node? loc = some (.link target) := by
  rcases h.node loc with hold | ⟨hnone, hnew⟩
  · rw [hold]
  · simp [hnone, hnew]

end AddsDirectories

/-! ### One directory -/

theorem parentOf_eq_ok_iff {names : List Text} :
    fs.parentOf p names = .ok loc ↔
      fs.follow .find maxLinks (startOf fs.workingDirectory p) names.dropLast =
        .ok (.directory loc) := by
  unfold parentOf
  split
  · next h => simp [h]
  · next h => simp [h]
  · next h => simp [h]
  · next h => simp [h]

/-- The place of the last name on a path is in the directory that the names before it lead to. -/
theorem placeOf_eq_ok {l : Location} (h : fs.placeOf p = .ok l) :
    pathFault? p = none ∧ ∃ loc name, l = loc ++ [name] ∧
      fs.follow .find maxLinks (startOf fs.workingDirectory p) (trimmedNames p).dropLast =
        .ok (.directory loc) ∧
      (trimmedNames p).getLast?.getD [] = name ∧ IsEntryName .find name [] := by
  unfold placeOf at h
  split at h
  · contradiction
  · next hfault =>
    refine ⟨hfault, ?_⟩
    simp only at h
    split at h
    · contradiction
    · next loc hparent =>
      split at h
      · contradiction
      · next hname =>
        split at h
        · contradiction
        · next hfits =>
          rw [not_or, not_or] at hname
          have hproper : IsProper ((trimmedNames p).getLast?.getD []) :=
            ⟨not_or.2 ⟨hname.1, hname.2.1⟩, hname.2.2⟩
          exact ⟨loc, _, (Except.ok.inj h).symm, parentOf_eq_ok_iff.1 hparent, rfl, hproper,
            Nat.le_of_not_lt hfits, fun hl => absurd hl.1 (by decide)⟩

theorem makeDirectory_eq_ok (h : fs.makeDirectory p = .ok fs') :
    ∃ l, fs.placeOf p = .ok l ∧ fs.node? l = none ∧ fs' = fs.put l .directory := by
  unfold makeDirectory at h
  split at h
  · contradiction
  · next l hl =>
    split at h
    · contradiction
    · next hnone => exact ⟨l, hl, by simpa using hnone, (Except.ok.inj h).symm⟩

theorem makesDirectories_of_makeDirectory (h : fs.makeDirectory p = .ok fs') :
    MakesDirectories fs fs' := by
  obtain ⟨l, hl, hnone, rfl⟩ := makeDirectory_eq_ok h
  obtain ⟨-, loc, name, rfl, hloc, -⟩ := placeOf_eq_ok hl
  exact .tail .refl (node?_of_follow hloc) hnone

theorem makesDirectories_of_ensureDirectory (h : fs.ensureDirectory p = .ok fs') :
    MakesDirectories fs fs' := by
  unfold ensureDirectory at h
  split at h
  · next made hm =>
    cases h
    exact makesDirectories_of_makeDirectory hm
  · split at h
    · cases h
      exact .refl
    · contradiction

/-- The names on a path, with the empty ones at its end set apart. -/
theorem exists_splitOn_eq (p : Path) : ∃ blanks : List Text,
    p.splitOn '/' = trimmedNames p ++ blanks ∧ ∀ b ∈ blanks, b = [] := by
  refine ⟨(p.splitOn '/').rtakeWhile List.isEmpty, ?_, fun b hb => ?_⟩
  · exact (List.rdropWhile_append_rtakeWhile (p := List.isEmpty) (l := p.splitOn '/')).symm
  · exact List.isEmpty_iff.1 (List.mem_rtakeWhile_imp hb)

theorem follow_blanks {aim : Aim} {links : Nat} {blanks : List Text}
    (hd : fs.node? loc = some .directory) (hb : ∀ b ∈ blanks, b = []) :
    fs.follow aim links loc blanks = .ok (.directory loc) := by
  induction blanks with
  | nil =>
    rw [follow]
    simp [hd]
  | cons b blanks ih =>
    have hnil : b = [] := hb b List.mem_cons_self
    rw [follow]
    simp only [hd, hnil, true_or, if_true]
    exact ih fun b hm => hb b (List.mem_cons_of_mem _ hm)

/-- A directory that has been made is there. -/
theorem isDirectory_of_makeDirectory (h : fs.makeDirectory p = .ok fs') : fs'.isDirectory p := by
  have hadds := (makesDirectories_of_makeDirectory h).addsDirectories
  obtain ⟨l, hl, hnone, rfl⟩ := makeDirectory_eq_ok h
  obtain ⟨hfault, loc, name, rfl, hloc, hlast, hname⟩ := placeOf_eq_ok hl
  obtain ⟨hne, -⟩ := not_or.1 hname.ne_gap
  have hnames : trimmedNames p = (trimmedNames p).dropLast ++ [name] := by
    cases hlast? : (trimmedNames p).getLast? with
    | none =>
      rw [hlast?] at hlast
      exact absurd hlast.symm hne
    | some last =>
      rw [hlast?] at hlast
      obtain rfl : last = name := hlast
      exact (List.dropLast_append_getLast? _ hlast?).symm
  obtain ⟨_, way, ⟨⟩⟩ := (way_of_follow hloc).extend hadds.toExtends (by simp)
  obtain ⟨links, hfollow⟩ := way.follow_append
  obtain ⟨blanks, hsplit, hblanks⟩ := exists_splitOn_eq p
  have hdir : (fs.put (loc ++ [name]) .directory).node? loc = some .directory := way.holds
  have hnew : (fs.put (loc ++ [name]) .directory).node? (loc ++ [name]) = some .directory := by
    rw [node?_put _ _ _ _ (by simp), if_pos rfl]
  have hfits := Nat.not_lt.2 hname.fits
  refine isDirectory_iff.2 ⟨loc ++ [name], ?_⟩
  rw [resolve, hfault]
  dsimp only
  rw [hsplit, hnames, List.append_assoc, List.singleton_append]
  refine (hfollow (name :: blanks)).trans ?_
  rw [follow]
  simp only [hdir, if_neg hname.ne_gap, if_neg hname.ne_up, reduceCtorEq, false_and, if_false,
    if_neg hfits, hnew]
  exact follow_blanks hnew hblanks

/-- A way to a directory starts in a directory. -/
theorem Way.node?_here {aim : Aim} {links : Nat} {here : Location} {names : List Text}
    (way : Way fs aim links here names (.directory loc)) : fs.node? here = some .directory := by
  cases way <;> assumption

/-- No directory is made where one is. -/
theorem makeDirectory_of_isDirectory (h : fs.isDirectory p) :
    fs.makeDirectory p = .error .alreadyExists := by
  obtain ⟨l, hres⟩ := isDirectory_iff.1 h
  obtain ⟨hfault, way⟩ := resolve_eq_ok_iff.1 hres
  obtain ⟨blanks, hsplit, hblanks⟩ := exists_splitOn_eq p
  rw [hsplit] at way
  unfold makeDirectory placeOf
  rw [hfault]
  dsimp only
  rcases List.eq_nil_or_concat (trimmedNames p) with hnil | ⟨names, name, hnames⟩
  · -- The path leads nowhere else than where it starts.
    have hparent : fs.parentOf p [] = .ok (startOf fs.workingDirectory p) :=
      parentOf_eq_ok_iff.2 (Way.follow_eq (.directory way.node?_here))
    rw [hnil, hparent]
    simp
  · rw [hnames, List.concat_eq_append, List.append_assoc] at way
    obtain ⟨links, out, hout, hlast⟩ := way.exists_of_append (by simp) (by simp)
    have hparent : fs.parentOf p (names ++ [name]) = .ok out := by
      rw [parentOf_eq_ok_iff, List.dropLast_concat]
      exact hout.follow_eq
    rw [hnames, List.concat_eq_append, hparent]
    simp only [List.getLast?_concat, Option.getD_some]
    by_cases hgap : name = [] ∨ name = ['.'] ∨ name = ['.', '.']
    · rw [if_pos hgap]
    · rw [if_neg hgap]
      rw [not_or, not_or] at hgap
      cases hlast with
      | stay _ hn => exact absurd hn (not_or.2 ⟨hgap.1, hgap.2.1⟩)
      | up => exact absurd rfl hgap.2.2
      | link _ hn ht =>
        rw [if_neg (Nat.not_lt.2 hn.fits)]
        simp [ht]
      | down _ hn hd =>
        rw [if_neg (Nat.not_lt.2 hn.fits)]
        simp [hd]

/-- What has to be a directory, is one afterwards. -/
theorem isDirectory_of_ensureDirectory (h : fs.ensureDirectory p = .ok fs') : fs'.isDirectory p := by
  unfold ensureDirectory at h
  split at h
  · next made hm =>
    cases h
    exact isDirectory_of_makeDirectory hm
  · split at h
    · next hdir =>
      cases h
      rw [Bool.and_eq_true] at hdir
      exact hdir.2
    · contradiction

theorem ensureDirectory_of_isDirectory (h : fs.isDirectory p) : fs.ensureDirectory p = .ok fs := by
  rw [ensureDirectory, makeDirectory_of_isDirectory h]
  simp [h]

/-! ### All directories on a path -/

theorem makesDirectories_makeAll (fs : FileSystem) (paths : List Path) :
    MakesDirectories fs (fs.makeAll paths).1 := by
  induction paths generalizing fs with
  | nil => exact .refl
  | cons p parents ih =>
    unfold makeAll
    split
    · next made hm => exact makesDirectories_of_ensureDirectory hm
    · split
      · have hparents := ih fs
        split
        · next above e hm =>
          rw [hm] at hparents
          exact hparents
        · next above hm =>
          rw [hm] at hparents
          split
          · next made hp => exact hparents.trans (makesDirectories_of_ensureDirectory hp)
          · exact hparents
      · exact .refl

theorem makesDirectories_makeDirectories (fs : FileSystem) (p : Path) :
    MakesDirectories fs (fs.makeDirectories p).1 := makesDirectories_makeAll fs _

theorem isDirectory_of_makeAll {parents : List Path} (h : fs.makeAll (p :: parents) = (fs', .ok ())) :
    fs'.isDirectory p := by
  unfold makeAll at h
  split at h
  · next made hm =>
    cases h
    exact isDirectory_of_ensureDirectory hm
  · split at h
    · split at h
      · cases h
      · split at h
        · next hm =>
          cases h
          exact isDirectory_of_ensureDirectory hm
        · cases h
    · cases h

/-- What has been made needs not be made again, as long as no directory is taken away. -/
theorem makeDirectories_again (h : fs.makeDirectories p = (fs', .ok ()))
    (hkeeps : fs'.isDirectory p → fs''.isDirectory p) : fs''.makeDirectories p = (fs'', .ok ()) := by
  unfold makeDirectories at h ⊢
  cases hpaths : pathsUp p with
  | nil => rfl
  | cons q parents =>
    obtain rfl : q = p := by
      unfold pathsUp at hpaths
      simp only at hpaths
      split at hpaths
      · contradiction
      · exact (List.cons.inj hpaths).1.symm
    rw [hpaths] at h
    rw [makeAll, ensureDirectory_of_isDirectory (hkeeps (isDirectory_of_makeAll h))]

end FileSystem

end DocPages
