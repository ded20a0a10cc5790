import DocPages.FileSystem.Change
import DocPages.Proofs.FileSystem.Way

/-!
# Writing files

A file is put where there is a file already or nothing (`HasRoom`). The way of every path stays as it
was, so a path that led to another file still leads there, and to what was in it (`Way.put`).

Main statements: a file that has been written is what its path leads to (`writeFile_eq`), and all
other paths lead where they led before (`resolve_put`).
-/

namespace DocPages

/-- Where a path leads after a file has been put at `l`. -/
def Place.afterPut (l : Location) (b : Bytes) : Place → Place
  | .file loc c => .file loc (if loc = l then b else c)
  | .directory loc => .directory loc
  | .vacant loc => if loc = l then .file loc b else .vacant loc

namespace FileSystem

/-- A file may be put at the location: there is one, or there is nothing. -/
def HasRoom (fs : FileSystem) (l : Location) : Prop :=
  ∀ node, fs.node? l = some node → ∃ c, node = .file c

variable {fs fs' : FileSystem} {aim : Aim} {links : Nat} {here loc l : Location}
  {names rest : List Text} {name : Text} {place : Place} {c b : Bytes} {p : Path}

namespace HasRoom

theorem ne_nil (hl : fs.HasRoom l) : l ≠ [] := by
  rintro rfl
  obtain ⟨c, hc⟩ := hl .directory rfl
  contradiction

theorem node?_put_self (hl : fs.HasRoom l) : (fs.put l (.file b)).node? l = some (.file b) := by
  rw [node?_put _ _ _ _ hl.ne_nil, if_pos rfl]

theorem node?_put_of_ne (hl : fs.HasRoom l) (h : loc ≠ l) :
    (fs.put l (.file b)).node? loc = fs.node? loc := by
  rw [node?_put _ _ _ _ hl.ne_nil, if_neg h]

/-- Directories and links stay where they are. -/
theorem node?_put_of_not_file (hl : fs.HasRoom l) {node : Node} (hn : fs.node? loc = some node)
    (hf : ∀ c, node ≠ .file c) : (fs.put l (.file b)).node? loc = some node := by
  have hne : loc ≠ l := by
    rintro rfl
    obtain ⟨c, hc⟩ := hl node hn
    exact hf c hc
  rw [hl.node?_put_of_ne hne, hn]

end HasRoom

theorem IsEntryName.find (h : IsEntryName aim name rest) : IsEntryName .find name rest :=
  ⟨h.toIsProper, h.fits, fun hl => absurd hl.1 (by decide)⟩

theorem IsEntryName.eq_nil_of_write (h : IsEntryName .write name rest)
    (hr : rest.all List.isEmpty) : rest = [] := by
  by_contra hne
  exact h.last ⟨rfl, hne, hr⟩

/-- A way for writing is one for reading. -/
theorem Way.find (way : Way fs aim links here names place) :
    Way fs .find links here names place := by
  induction way with
  | directory h => exact .directory h
  | file h => exact .file h
  | stay h hn _ ih => exact .stay h hn ih
  | up h _ ih => exact .up h ih
  | vacant h hn he hr => exact .vacant h hn.find he hr
  | link h hn ht _ ih => exact .link h hn.find ht ih
  | down h hn hd hl _ ih => exact .down h hn.find hd hl ih

/-- The way of a path stays the same when a file is put somewhere. -/
theorem Way.put (hl : fs.HasRoom l) (way : Way fs aim links here names place)
    (hv : aim = .write ∨ ∀ v, place ≠ .vacant v) :
    Way (fs.put l (.file b)) aim links here names (place.afterPut l b) := by
  induction way with
  | directory h => exact .directory (hl.node?_put_of_not_file h (by simp))
  | @file links here c h =>
    refine .file ?_
    by_cases hh : here = l
    · rw [if_pos hh, hh]
      exact hl.node?_put_self
    · rw [if_neg hh, hl.node?_put_of_ne hh]
      exact h
  | stay h hn _ ih => exact .stay (hl.node?_put_of_not_file h (by simp)) hn (ih hv)
  | up h _ ih => exact .up (hl.node?_put_of_not_file h (by simp)) (ih hv)
  | @vacant links here name rest h hn he hr =>
    have hd := hl.node?_put_of_not_file (b := b) h (by simp)
    by_cases hh : here ++ [name] = l
    · -- Only writing may end where nothing is, and then no separator stands behind the name.
      obtain rfl : aim = .write := hv.resolve_right fun hv => hv _ rfl
      obtain rfl : rest = [] := hn.eq_nil_of_write hr
      have hself : (fs.put l (.file b)).node? (here ++ [name]) = some (.file b) := by
        rw [hh]
        exact hl.node?_put_self
      rw [Place.afterPut, if_pos hh]
      exact .down hd hn hself (by simp) (.file hself)
    · rw [Place.afterPut, if_neg hh]
      exact .vacant hd hn (by rw [hl.node?_put_of_ne hh, he]) hr
  | link h hn ht _ ih =>
    exact .link (hl.node?_put_of_not_file h (by simp)) hn
      (hl.node?_put_of_not_file ht (by simp)) (ih hv)
  | @down links here name rest node place h hn hd hlink _ ih =>
    have hdir := hl.node?_put_of_not_file (b := b) h (by simp)
    by_cases hh : here ++ [name] = l
    · have hself : (fs.put l (.file b)).node? (here ++ [name]) = some (.file b) := by
        rw [hh]
        exact hl.node?_put_self
      exact .down hdir hn hself (by simp) (ih hv)
    · exact .down hdir hn (by rw [hl.node?_put_of_ne hh, hd]) hlink (ih hv)

/-! ### Writing and reading -/

theorem resolve_find (h : fs.resolve aim p = .ok place) : fs.resolve .find p = .ok place := by
  obtain ⟨hp, way⟩ := resolve_eq_ok_iff.1 h
  exact resolve_eq_ok_iff.2 ⟨hp, way.find⟩

theorem resolve_put (hl : fs.HasRoom l) (h : fs.resolve aim p = .ok place)
    (hv : aim = .write ∨ ∀ v, place ≠ .vacant v) :
    (fs.put l (.file b)).resolve aim p = .ok (place.afterPut l b) := by
  obtain ⟨hp, way⟩ := resolve_eq_ok_iff.1 h
  exact resolve_eq_ok_iff.2 ⟨hp, way.put hl hv⟩

/-- There is room at the end of a way that leads to no directory. -/
theorem hasRoom_of_holds (h : fs.Holds place) (hl : place = .file l c ∨ place = .vacant l) :
    fs.HasRoom l := by
  intro node hn
  rcases hl with rfl | rfl
  · exact ⟨c, Option.some.inj (hn.symm.trans h)⟩
  · have hnone : fs.node? l = none := h
    rw [hnone] at hn
    contradiction

/-- A path that leads to room for a file leads to the file that has been put there. -/
theorem resolve_put_self (hr : fs.resolve .write p = .ok place)
    (hl : place = .file l c ∨ place = .vacant l) :
    fs.HasRoom l ∧ (fs.put l (.file b)).resolve .write p = .ok (.file l b) := by
  have hroom := hasRoom_of_holds (resolve_eq_ok_iff.1 hr).2.holds hl
  refine ⟨hroom, (resolve_put hroom hr (Or.inl rfl)).trans ?_⟩
  rcases hl with rfl | rfl
  · rw [Place.afterPut, if_pos rfl]
  · rw [Place.afterPut, if_pos rfl]

/-- A file that has been written is what its path leads to, and may be written again. -/
theorem writeFile_eq (h : fs.writeFile p c = .ok fs') :
    ∃ l, fs.HasRoom l ∧ fs' = fs.put l (.file c) ∧ fs'.resolve .write p = .ok (.file l c) := by
  unfold writeFile at h
  split at h
  · next l c₀ hr =>
    obtain ⟨hroom, hput⟩ := resolve_put_self (b := c) hr (Or.inl rfl)
    cases h
    exact ⟨l, hroom, rfl, hput⟩
  · next l hr =>
    obtain ⟨hroom, hput⟩ := resolve_put_self (c := c) (b := c) hr (Or.inr rfl)
    cases h
    exact ⟨l, hroom, rfl, hput⟩
  · contradiction
  · contradiction

end FileSystem

end DocPages
