import DocPages.DocBlock.Tags
import DocPages.Proofs.Grouping
import Mathlib.Data.Finset.Card

/-!
# Tags as groups of values

Tags that come from recording names and values one after the other hold exactly these, grouped by
name (`isGroupingOf_ofList`): each name once, in the order in which the names were first recorded,
with its values in order. All that is read off tags is told by `IsGroupingOf`.
-/

namespace DocPages.Tags

open Grouping

variable {name value : Text} {pairs : List (Text × Text)}

/-- The names of some tags. -/
def names (tags : Tags) : List Text := tags.toList.map Prod.fst

/-- The names and values of some tags, one by one. -/
def toPairs (tags : Tags) : List (Text × Text) := ungroup tags.toList

/-- The tags hold exactly the given names and values, grouped by name. -/
structure IsGroupingOf (tags : Tags) (pairs : List (Text × Text)) : Prop where
  nodup_names : tags.names.Nodup
  /-- The names stand in the order in which they first occur. -/
  names_eq : tags.names = (pairs.map Prod.fst).eraseDups
  values_ne_nil : ∀ tag ∈ tags.toList, tag.2 ≠ []
  get?_eq : ∀ name, tags.get? name =
    if name ∈ pairs.map Prod.fst then some (itemsOf name pairs) else none
  first?_eq : ∀ name, tags.first? name = (itemsOf name pairs).head?
  size_eq : tags.size = (pairs.map Prod.fst).toFinset.card
  isEmpty_iff : tags.isEmpty ↔ pairs = []
  perm_toPairs : tags.toPairs.Perm pairs
  /-- Under each name, the values keep their order. -/
  filter_toPairs : ∀ name, tags.toPairs.filter (·.1 = name) = pairs.filter (·.1 = name)

theorem insertEntry_eq_add (entries : List (Text × List Text)) :
    insertEntry name value entries = add name value entries := by
  induction entries with
  | nil => rfl
  | cons entry entries ih => rw [insertEntry, add, ih]

theorem ofList_concat (pairs : List (Text × Text)) (p : Text × Text) :
    ofList (pairs ++ [p]) = (ofList pairs).insert p.1 p.2 := by
  simp only [ofList, List.foldl_append, List.foldl_cons, List.foldl_nil]

theorem toList_foldl_insert (tags : Tags) (pairs : List (Text × Text)) :
    (pairs.foldl (fun tags p => tags.insert p.1 p.2) tags).toList =
      pairs.foldl (fun gs p => add p.1 p.2 gs) tags.toList := by
  induction pairs generalizing tags with
  | nil => rfl
  | cons p pairs ih =>
    have hinsert : (tags.insert p.1 p.2).toList = add p.1 p.2 tags.toList :=
      insertEntry_eq_add tags.toList
    rw [List.foldl_cons, ih, hinsert, List.foldl_cons]

theorem toList_ofList (pairs : List (Text × Text)) : (ofList pairs).toList = groups pairs := by
  rw [ofList, toList_foldl_insert]
  exact foldl_add pairs

theorem names_ofList (pairs : List (Text × Text)) : (ofList pairs).names = keys pairs := by
  rw [names, toList_ofList, map_fst_groups]

theorem get?_ofList (name : Text) (pairs : List (Text × Text)) :
    (ofList pairs).get? name =
      if name ∈ pairs.map Prod.fst then some (itemsOf name pairs) else none := by
  have hget : (ofList pairs).get? name = (ofList pairs).toList.lookup name := rfl
  rw [hget, toList_ofList, lookup_groups]
  simp only [mem_keys_iff]

theorem first?_ofList (name : Text) (pairs : List (Text × Text)) :
    (ofList pairs).first? name = (itemsOf name pairs).head? := by
  rw [first?, get?_ofList]
  split
  · rfl
  · next h =>
    have hnone : itemsOf name pairs = [] := by
      by_contra hne
      exact h (mem_keys_iff.1 (itemsOf_ne_nil_iff.1 hne))
    rw [hnone]
    rfl

theorem size_ofList (pairs : List (Text × Text)) :
    (ofList pairs).size = (pairs.map Prod.fst).toFinset.card := by
  have hsame : (keys pairs).toFinset = (pairs.map Prod.fst).toFinset := by
    ext name
    rw [List.mem_toFinset, List.mem_toFinset, mem_keys_iff]
  have hsize : (ofList pairs).size = (ofList pairs).names.length := by
    rw [names, List.length_map]
    rfl
  rw [hsize, names_ofList, ← hsame, List.toFinset_card_of_nodup (nodup_keys pairs)]

theorem isEmpty_ofList_iff : (ofList pairs).isEmpty ↔ pairs = [] := by
  have hempty : (ofList pairs).isEmpty = (ofList pairs).toList.isEmpty := rfl
  rw [hempty, toList_ofList, List.isEmpty_iff]
  cases pairs with
  | nil => exact iff_of_true rfl rfl
  | cons p pairs =>
    rw [groups_cons]
    exact iff_of_false (List.cons_ne_nil _ _) (List.cons_ne_nil _ _)

theorem isGroupingOf_ofList (pairs : List (Text × Text)) : (ofList pairs).IsGroupingOf pairs where
  nodup_names := names_ofList pairs ▸ nodup_keys pairs
  names_eq := names_ofList pairs
  values_ne_nil _ htag := snd_ne_nil_of_mem_groups (toList_ofList pairs ▸ htag)
  get?_eq name := get?_ofList name pairs
  first?_eq name := first?_ofList name pairs
  size_eq := size_ofList pairs
  isEmpty_iff := isEmpty_ofList_iff
  perm_toPairs := by
    rw [toPairs, toList_ofList]
    exact perm_ungroup_groups pairs
  filter_toPairs name := by
    rw [toPairs, toList_ofList]
    exact filter_ungroup_groups name pairs

end DocPages.Tags
