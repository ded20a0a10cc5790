import DocPages.Discovery
import DocPages.Proofs.FileSystem.Way
import DocPages.Proofs.Text.Basic
import Mathlib.Data.List.Nodup

/-!
# The entries of a directory

A directory lists its entries by name, and the path of an entry is the path of the directory with the
name behind it. Such a path leads to what there is at the location of the entry, unless it is too long
(`resolve_join`), and each name is listed once (`mem_children_iff`, `nodup_children`).
-/

namespace DocPages

variable {fs fs' : FileSystem} {p q root : Path} {loc : Location} {name : Text}

namespace FileSystem

/-- The name of a listed entry. -/
structure IsListed (name : Text) : Prop extends IsProper name where
  not_mem_slash : '/' ∉ name
  not_mem_nul : '\x00' ∉ name

theorem isName_iff : isName name ↔ IsListed name := by
  constructor
  · intro h
    simp only [isName, Bool.and_eq_true, Bool.not_eq_true', List.isEmpty_eq_false_iff, bne_iff_ne,
      decide_eq_true_eq] at h
    obtain ⟨⟨⟨⟨hne, hpoint⟩, hup⟩, hslash⟩, hnul⟩ := h
    exact ⟨⟨not_or.2 ⟨hne, hpoint⟩, hup⟩, hslash, hnul⟩
  · intro h
    obtain ⟨hne, hpoint⟩ := not_or.1 h.ne_gap
    simp [isName, hne, hpoint, h.ne_up, h.not_mem_slash, h.not_mem_nul]

/-! ### The names in a directory -/

theorem childName?_eq_some_iff {entry : Location × Node} :
    childName? loc entry = some name ↔ entry.1 = loc ++ [name] ∧ IsListed name := by
  rw [← isName_iff]
  unfold childName?
  constructor
  · intro h
    split at h
    · next hloc =>
      rw [Option.filter_eq_some_iff, List.getLast?_eq_some_iff] at h
      obtain ⟨⟨before, hbefore⟩, hname⟩ := h
      rw [hbefore, List.dropLast_concat] at hloc
      exact ⟨by rw [hbefore, hloc], hname⟩
    · contradiction
  · rintro ⟨heq, hname⟩
    simp [heq, hname]

theorem mem_children_iff :
    name ∈ fs.children loc ↔ IsListed name ∧ (fs.node? (loc ++ [name])).isSome := by
  rw [children, List.mem_filterMap, isSome_node?_iff]
  constructor
  · rintro ⟨entry, hentry, hname⟩
    obtain ⟨heq, hlisted⟩ := childName?_eq_some_iff.1 hname
    exact ⟨hlisted, entry, hentry, heq⟩
  · rintro ⟨hlisted, entry, hentry, heq⟩
    exact ⟨entry, hentry, childName?_eq_some_iff.2 ⟨heq, hlisted⟩⟩

theorem nodup_children (fs : FileSystem) (loc : Location) : (fs.children loc).Nodup := by
  have hmap : fs.children loc =
      (fs.entries.map Prod.fst).filterMap fun l => childName? loc (l, .directory) := by
    rw [children, List.filterMap_map]
    rfl
  rw [hmap]
  refine fs.distinct.filterMap fun l l' name hl hl' => ?_
  have h₁ := (childName?_eq_some_iff.1 hl).1
  have h₂ := (childName?_eq_some_iff.1 hl').1
  exact h₁.trans h₂.symm

/-! ### The paths of the entries -/

/-- What there is at a location, if it is no link. -/
def placeAt (fs : FileSystem) (loc : Location) : Place :=
  match fs.node? loc with
  | some (.file c) => .file loc c
  | some .directory => .directory loc
  | _ => .vacant loc

/-- What is wrong with the path of an entry, whatever there is. -/
def entryFault? (p : Path) (name : Text) : Option SystemError :=
  match pathFault? (Path.join p name) with
  | some e => some e
  | none => if maxNameLength < Text.byteSize name then some .nameTooLong else none

theorem follow_singleton {links : Nat} (hd : fs.node? loc = some .directory) (hn : IsListed name)
    (hlink : ∀ target, fs.node? (loc ++ [name]) ≠ some (.link target)) :
    fs.follow .find links loc [name] =
      if maxNameLength < Text.byteSize name then .error .nameTooLong
      else .ok (fs.placeAt (loc ++ [name])) := by
  rw [follow]
  simp only [hd, if_neg hn.ne_gap, if_neg hn.ne_up, reduceCtorEq, false_and, if_false, placeAt]
  split
  · rfl
  · cases hnode : fs.node? (loc ++ [name]) with
    | none => simp
    | some node =>
      cases node with
      | link target => exact absurd hnode (hlink target)
      | file c => simp [follow, hnode]
      | directory => simp [follow, hnode]

/-- The path of an entry leads to what there is at its location. -/
theorem resolve_join (hp : fs.directoryAt? p = some loc) (hn : IsListed name)
    (hlink : ∀ target, fs.node? (loc ++ [name]) ≠ some (.link target)) :
    fs.resolve .find (Path.join p name) =
      match entryFault? p name with
      | some e => .error e
      | none => .ok (fs.placeAt (loc ++ [name])) := by
  obtain ⟨hfault, way⟩ := resolve_eq_ok_iff.1 (directoryAt?_eq_some_iff.1 hp)
  have hd : fs.node? loc = some .directory := way.holds
  obtain ⟨names, hnames, hstart⟩ : ∃ names : List Text,
      (Path.join p name).splitOn '/' = names ++ [name] ∧
      Way fs .find maxLinks (startOf fs.workingDirectory p) names (.directory loc) := by
    obtain ⟨names, hsplit, hjoin⟩ := Path.exists_splitOn_join p
    refine ⟨names, hjoin name hn.not_mem_slash, ?_⟩
    rcases hsplit with heq | heq
    · rwa [heq] at way
    · -- The path ends with a slash, behind which it stays where it is.
      rw [heq] at way
      obtain ⟨links, out, hout, hlast⟩ := way.exists_of_append (by simp) (by simp)
      cases hlast with
      | stay h _ hend =>
        cases hend
        exact hout
      | link _ hname => exact absurd (Or.inl rfl) hname.ne_gap
      | down _ hname => exact absurd (Or.inl rfl) hname.ne_gap
  have hhere : startOf fs.workingDirectory (Path.join p name) = startOf fs.workingDirectory p := by
    rw [startOf, startOf, Path.isAbsolute_join p hn.not_mem_slash]
  obtain ⟨links, hfollow⟩ := hstart.follow_append
  rw [resolve, entryFault?]
  cases pathFault? (Path.join p name) with
  | some e => rfl
  | none =>
    dsimp only
    rw [hhere, hnames, hfollow, follow_singleton hd hn hlink]
    split <;> rfl

/-! ### Without links -/

/-- No location holds a link. -/
def HasNoLinks (fs : FileSystem) : Prop := ∀ loc target, fs.node? loc ≠ some (.link target)

/-- Where there are no links, the directory of an entry lies behind its name. -/
theorem directoryAt?_join (hfs : fs.HasNoLinks) {l : Location} (hp : fs.directoryAt? p = some loc)
    (hn : IsListed name) (h : fs.directoryAt? (Path.join p name) = some l) :
    l = loc ++ [name] ∧ fs.node? (loc ++ [name]) = some .directory := by
  rw [directoryAt?_eq_some_iff, resolve_join hp hn (hfs _)] at h
  split at h
  · contradiction
  · have hplace := Except.ok.inj h
    unfold placeAt at hplace
    split at hplace
    · contradiction
    · next hnode =>
      cases hplace
      exact ⟨rfl, hnode⟩
    · contradiction

end FileSystem

/-! ### Names on paths -/

namespace Path

open FileSystem

theorem components_join (p : Path) (hn : IsListed name) :
    components (join p name) = components p ++ [name] := by
  obtain ⟨names, hsplit, hjoin⟩ := exists_splitOn_join p
  obtain ⟨hne, hpoint⟩ := not_or.1 hn.ne_gap
  rw [components, components, hjoin name hn.not_mem_slash, List.filter_append]
  rcases hsplit with heq | heq
  · simp [heq, hne, hpoint]
  · simp [heq, hne, hpoint]

theorem extension?_join (p : Path) (hn : IsListed name) :
    extension? (join p name) = extensionOfName? name := by
  rw [extension?, fileName?, components_join p hn, List.getLast?_concat, Option.filter_some,
    if_pos (by simpa using hn.ne_up), Option.bind_some]

theorem extensionOfName?_append {stem e : Text} (hstem : stem ≠ []) (he : '.' ∉ e) :
    extensionOfName? (stem ++ '.' :: e) = some e := by
  have hbefore : ∀ c ∈ e.reverse, (c != '.') = true := fun c hc =>
    bne_iff_ne.2 fun heq => he (heq ▸ List.mem_reverse.1 hc)
  have hreverse : (stem ++ '.' :: e).reverse = e.reverse ++ '.' :: stem.reverse := by simp
  rw [extensionOfName?, hreverse, dropWhile_append_of_boundary hbefore (by simp),
    takeWhile_append_of_boundary hbefore (by simp)]
  simp [hstem]

end Path

end DocPages
