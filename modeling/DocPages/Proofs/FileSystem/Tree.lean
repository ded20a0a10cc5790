import DocPages.Proofs.FileSystem.Make
import DocPages.Proofs.FileSystem.Write

/-!
# Trees

A file system is a list of locations, and nothing in the list says that there is a directory above each
of them. `IsTree` does. It stays so when directories are made (`IsTree.makeDirectories`), files are
written (`IsTree.writeFile`) and a tree is built and changed by hand (`IsTree.addFile`,
`IsTree.addLink`, `IsTree.remove`).
-/

namespace DocPages

namespace FileSystem

/-- Everything but the root lies in a directory. -/
def IsTree (fs : FileSystem) : Prop :=
  ∀ loc name, (fs.node? (loc ++ [name])).isSome → fs.node? loc = some .directory

variable {fs fs' : FileSystem} {loc : Location} {name : Text} {p : Path}

theorem isTree_iff :
    fs.IsTree ↔ ∀ e ∈ fs.entries, e.1 = [] ∨ fs.node? e.1.dropLast = some .directory := by
  constructor
  · intro h e he
    rcases List.eq_nil_or_concat e.1 with hnil | ⟨loc, name, heq⟩
    · exact Or.inl hnil
    · rw [List.concat_eq_append] at heq
      rw [heq, List.dropLast_concat]
      exact Or.inr (h loc name (isSome_node?_iff.2 ⟨e, he, heq⟩))
  · intro h loc name hn
    obtain ⟨e, he, heq⟩ := isSome_node?_iff.1 hn
    have hdir := (h e he).resolve_left (by simp [heq])
    rwa [heq, List.dropLast_concat] at hdir

instance : Decidable fs.IsTree := decidable_of_iff _ isTree_iff.symm

/-- All locations above one that is there are directories. -/
theorem IsTree.node?_above (h : fs.IsTree) {below : Location}
    (hn : (fs.node? (loc ++ below ++ [name])).isSome) : fs.node? loc = some .directory := by
  induction below using List.reverseRecOn generalizing name with
  | nil => exact h loc name (by simpa using hn)
  | append_singleton below n ih =>
    have hdir := h _ _ hn
    have hchild : (fs.node? (loc ++ below ++ [n])).isSome := by
      rw [List.append_assoc, hdir]
      rfl
    exact ih hchild

theorem IsTree.put (h : fs.IsTree) (hd : fs.node? loc = some .directory) {node : Node}
    (hkeep : fs.node? (loc ++ [name]) = some .directory → node = .directory) :
    (fs.put (loc ++ [name]) node).IsTree := by
  intro l n hn
  rw [node?_put _ _ _ _ (by simp)] at hn ⊢
  by_cases hl : l = loc ++ [name]
  · -- What lies below the location was there before, so the location was a directory.
    rw [if_neg (by simp [hl])] at hn
    rw [if_pos hl, hkeep (hl ▸ h l n hn)]
  · rw [if_neg hl]
    by_cases hln : l ++ [n] = loc ++ [name]
    · rw [(List.append_inj' hln rfl).1, hd]
    · rw [if_neg hln] at hn
      exact h l n hn

theorem MakesDirectories.isTree (hm : MakesDirectories fs fs') (h : fs.IsTree) : fs'.IsTree := by
  induction hm with
  | refl => exact h
  | tail _ hd hv ih => exact ih.put hd (by simp [hv])

theorem IsTree.makeDirectories (h : fs.IsTree) (p : Path) : (fs.makeDirectories p).1.IsTree :=
  (makesDirectories_makeDirectories fs p).isTree h

/-- A missing name on a path is missing in a directory. -/
theorem Way.node?_above_vacant {aim : Aim} {links : Nat} {here l : Location} {names : List Text}
    (way : Way fs aim links here names (.vacant l)) :
    ∃ loc name, l = loc ++ [name] ∧ fs.node? loc = some .directory := by
  generalize hp : Place.vacant l = place at way
  induction way with
  | directory => contradiction
  | file => contradiction
  | vacant h =>
    cases hp
    exact ⟨_, _, rfl, h⟩
  | stay _ _ _ ih => exact ih hp
  | up _ _ ih => exact ih hp
  | link _ _ _ _ ih => exact ih hp
  | down _ _ _ _ _ ih => exact ih hp

theorem IsTree.writeFile (h : fs.IsTree) {c : Bytes} (hw : fs.writeFile p c = .ok fs') :
    fs'.IsTree := by
  unfold FileSystem.writeFile at hw
  split at hw
  · next l c' hres =>
    cases hw
    have hfile : fs.node? l = some (.file c') := (resolve_eq_ok_iff.1 hres).2.holds
    rcases List.eq_nil_or_concat l with rfl | ⟨loc, name, rfl⟩
    · cases hfile
    · rw [List.concat_eq_append] at hfile ⊢
      exact h.put (h loc name (by simp [hfile])) (by simp [hfile])
  · next l hres =>
    cases hw
    have way := (resolve_eq_ok_iff.1 hres).2
    have hnone : fs.node? l = none := way.holds
    obtain ⟨loc, name, rfl, hd⟩ := way.node?_above_vacant
    exact h.put hd (by simp [hnone])
  · contradiction
  · contradiction

/-! ### Trees by hand -/

theorem directory_of_placeOf {l : Location} (h : fs.placeOf p = .ok l) :
    ∃ loc name, l = loc ++ [name] ∧ fs.node? loc = some .directory := by
  obtain ⟨-, loc, name, hl, hloc, -⟩ := placeOf_eq_ok h
  exact ⟨loc, name, hl, node?_of_follow hloc⟩

theorem lookup_filter_location (q : Location → Bool) (es : List (Location × Node)) (l : Location) :
    (es.filter fun e => q e.1).lookup l = if q l then es.lookup l else none := by
  induction es with
  | nil => simp
  | cons e es ih =>
    obtain ⟨k, n⟩ := e
    by_cases hk : l = k
    · subst hk
      cases hq : q l with
      | true => simp [hq]
      | false => simp [hq, ih]
    · rw [List.lookup_cons, beq_eq_false_iff_ne.2 hk, ← ih, List.filter_cons]
      split
      · simp [List.lookup_cons, beq_eq_false_iff_ne.2 hk]
      · rfl

/-- What lies below an erased location is gone, and nothing else is. -/
theorem node?_erase (fs : FileSystem) (l : Location) :
    (fs.erase l).node? (loc ++ [name]) =
      if l <+: loc ++ [name] then none else fs.node? (loc ++ [name]) := by
  have hlookup := lookup_filter_location (fun k => !l.isPrefixOf k) fs.entries (loc ++ [name])
  rw [node?_concat, node?_concat, FileSystem.erase, hlookup]
  by_cases hpre : l <+: loc ++ [name]
  · simp [hpre, List.isPrefixOf_iff_prefix.2 hpre]
  · simp [hpre]

theorem IsTree.erase (h : fs.IsTree) (l : Location) : (fs.erase l).IsTree := by
  intro loc name hn
  rw [node?_erase] at hn
  split at hn
  · contradiction
  · next hpre =>
    have hd := h loc name hn
    rcases List.eq_nil_or_concat loc with rfl | ⟨loc, n, rfl⟩
    · rfl
    · rw [List.concat_eq_append] at hd hpre ⊢
      rw [node?_erase, if_neg fun hp => hpre (hp.trans (List.prefix_append _ _)), hd]

theorem IsTree.addFile (h : fs.IsTree) {c : Bytes} (hf : fs.addFile p c = .ok fs') : fs'.IsTree :=
  (h.makeDirectories _).writeFile hf

theorem IsTree.addLink (h : fs.IsTree) {target : Path} (hl : fs.addLink p target = .ok fs') :
    fs'.IsTree := by
  unfold FileSystem.addLink at hl
  simp only at hl
  split at hl
  · contradiction
  · next l hplace =>
    split at hl
    · contradiction
    · next hnone =>
      cases hl
      obtain ⟨loc, name, rfl, hd⟩ := directory_of_placeOf hplace
      exact (h.makeDirectories _).put hd (by simp_all)

theorem IsTree.remove (h : fs.IsTree) (hr : fs.remove p = .ok fs') : fs'.IsTree := by
  unfold FileSystem.remove at hr
  split at hr
  · contradiction
  · split at hr
    · cases hr
      exact h.erase _
    · contradiction

end FileSystem

end DocPages
