import DocPages.Text.Basic
import Mathlib.Data.List.Induction
import Mathlib.Data.List.Nodup
import Mathlib.Data.List.Perm.Basic

/-!
# Grouping by key

A row of items with a text as key is grouped by going through it and putting each item at the end of
the group of its key, which comes last if it is new (`add`). What comes out (`foldl_add`) are the
groups of the row: one for each key, in the order in which the keys first occur, with the items of
the key in order (`groups`).

Nothing is lost and nothing comes twice: the row is a permutation of what the groups hold
(`perm_ungroup_groups`), and the items of each key keep their order (`filter_ungroup_groups`). What the
groups hold, one group after the other, has the same groups (`groups_ungroup_groups`).
-/

namespace DocPages.Grouping

variable {α : Type}

/-- Puts an item at the end of the group of its key, which comes last if it is new. -/
def add (key : Text) (item : α) : List (Text × List α) → List (Text × List α)
  | [] => [(key, [item])]
  | (k, items) :: rest =>
    if k = key then (k, items ++ [item]) :: rest else (k, items) :: add key item rest

/-- The items of a key, in order. -/
def itemsOf (key : Text) (pairs : List (Text × α)) : List α :=
  (pairs.filter (·.1 = key)).map Prod.snd

/-- The keys of a row in the order in which they first occur. -/
def keys (pairs : List (Text × α)) : List Text := (pairs.map Prod.fst).eraseDups

/-- The groups of a row. -/
def groups (pairs : List (Text × α)) : List (Text × List α) :=
  (keys pairs).map fun key => (key, itemsOf key pairs)

/-- The keyed items that groups hold. -/
def ungroup (gs : List (Text × List α)) : List (Text × α) :=
  gs.flatMap fun g => g.2.map fun item => (g.1, item)

/-- The part of a row that has other keys. -/
def others (key : Text) (pairs : List (Text × α)) : List (Text × α) := pairs.filter (·.1 ≠ key)

/-! ### One key after the other -/

section Recursion

variable {key : Text} {item : α} {k : Text} {a : α} {rest pairs : List (Text × α)}

theorem keys_cons : keys ((k, a) :: rest) = k :: keys (others k rest) := by
  have hothers : ((fun b => !b == k) ∘ Prod.fst) = fun p : Text × α => decide (p.1 ≠ k) := by
    funext p
    by_cases h : p.1 = k <;> simp [h]
  rw [keys, List.map_cons, List.eraseDups_cons, List.filter_map, hothers]
  rfl

theorem mem_keys_iff : key ∈ keys pairs ↔ key ∈ pairs.map Prod.fst := List.mem_eraseDups

theorem itemsOf_others (h : key ≠ k) : itemsOf key (others k pairs) = itemsOf key pairs := by
  have hand : ∀ p : Text × α, (decide (p.1 = key) && decide (p.1 ≠ k)) = decide (p.1 = key) := by
    intro p
    by_cases hp : p.1 = key <;> simp [hp, h]
  simp only [itemsOf, others, List.filter_filter, hand]

theorem itemsOf_cons_of_ne (h : key ≠ k) : itemsOf key ((k, a) :: rest) = itemsOf key rest := by
  simp [itemsOf, h.symm]

theorem itemsOf_cons_self : itemsOf k ((k, a) :: rest) = a :: itemsOf k rest := by
  simp [itemsOf]

/-- The first key makes the first group, and the other groups are those of the rest without it. -/
theorem groups_cons :
    groups ((k, a) :: rest) = (k, a :: itemsOf k rest) :: groups (others k rest) := by
  rw [groups, keys_cons, List.map_cons, itemsOf_cons_self, groups, List.cons.injEq]
  refine ⟨rfl, List.map_congr_left fun key hkey => ?_⟩
  have hne : key ≠ k := by
    obtain ⟨p, hp, rfl⟩ := List.mem_map.1 (mem_keys_iff.1 hkey)
    simpa using (List.mem_filter.1 hp).2
  rw [itemsOf_cons_of_ne hne, itemsOf_others hne]

theorem others_append_of_ne (h : key ≠ k) :
    others k (rest ++ [(key, item)]) = others k rest ++ [(key, item)] := by
  simp [others, h]

theorem others_append_self : others k (rest ++ [(k, item)]) = others k rest := by
  simp [others]

theorem itemsOf_append_of_ne (h : key ≠ k) :
    itemsOf k (rest ++ [(key, item)]) = itemsOf k rest := by
  simp [itemsOf, h]

theorem itemsOf_append_self : itemsOf k (rest ++ [(k, item)]) = itemsOf k rest ++ [item] := by
  simp [itemsOf]

end Recursion

/-- What holds of the empty row, and of a row if it holds of the rest without the first key, holds
of every row. -/
theorem induction_keys {motive : List (Text × α) → Prop} (nil : motive [])
    (cons : ∀ k a rest, motive (others k rest) → motive ((k, a) :: rest)) :
    ∀ pairs, motive pairs
  | [] => nil
  | (k, a) :: rest => cons k a rest (induction_keys nil cons (others k rest))
termination_by pairs => pairs.length
decreasing_by exact Nat.lt_succ_of_le (List.length_filter_le _ _)

/-! ### Adding an item -/

theorem add_groups (key : Text) (item : α) (pairs : List (Text × α)) :
    add key item (groups pairs) = groups (pairs ++ [(key, item)]) := by
  induction pairs using induction_keys with
  | nil => rw [List.nil_append, groups_cons]; rfl
  | cons k a rest ih =>
    rw [List.cons_append, groups_cons, groups_cons, add]
    split
    · next h => rw [← h, itemsOf_append_self, others_append_self, List.cons_append]
    · next h =>
      have hne : key ≠ k := fun he => h he.symm
      rw [ih, itemsOf_append_of_ne hne, others_append_of_ne hne]

theorem foldl_add_groups (done pairs : List (Text × α)) :
    pairs.foldl (fun gs p => add p.1 p.2 gs) (groups done) = groups (done ++ pairs) := by
  induction pairs generalizing done with
  | nil => rw [List.foldl_nil, List.append_nil]
  | cons p pairs ih =>
    rw [List.foldl_cons, add_groups, ih, List.append_assoc, List.singleton_append]

theorem foldl_add (pairs : List (Text × α)) :
    pairs.foldl (fun gs p => add p.1 p.2 gs) [] = groups pairs :=
  foldl_add_groups [] pairs

/-! ### Reading the groups -/

theorem map_fst_groups (pairs : List (Text × α)) : (groups pairs).map Prod.fst = keys pairs := by
  rw [groups, List.map_map]
  exact List.map_id _

theorem nodup_keys (pairs : List (Text × α)) : (keys pairs).Nodup := by
  induction pairs using induction_keys with
  | nil => exact List.nodup_nil
  | cons k a rest ih =>
    rw [keys_cons, List.nodup_cons]
    refine ⟨fun hk => ?_, ih⟩
    obtain ⟨p, hp, he⟩ := List.mem_map.1 (mem_keys_iff.1 hk)
    exact absurd he (by simpa using (List.mem_filter.1 hp).2)

theorem keys_concat (pairs : List (Text × α)) (p : Text × α) :
    keys (pairs ++ [p]) = if p.1 ∈ keys pairs then keys pairs else keys pairs ++ [p.1] := by
  rw [keys, List.map_append, List.eraseDups_append]
  simp only [mem_keys_iff]
  split
  · next h => simp [List.removeAll, h, keys]
  · next h => simp [List.removeAll, h, keys, List.eraseDups_cons]

/-- The keys stand in the order in which they first occur. -/
theorem pairwise_idxOf_keys (pairs : List (Text × α)) :
    (keys pairs).Pairwise fun a b =>
      (pairs.map Prod.fst).idxOf a < (pairs.map Prod.fst).idxOf b := by
  induction pairs using List.reverseRecOn with
  | nil => exact List.Pairwise.nil
  | append_singleton pairs p ih =>
    have hold : ∀ a ∈ keys pairs,
        ((pairs ++ [p]).map Prod.fst).idxOf a = (pairs.map Prod.fst).idxOf a := by
      intro a ha
      rw [List.map_append, List.idxOf_append_of_mem (mem_keys_iff.1 ha)]
    have hkept : (keys pairs).Pairwise fun a b =>
        ((pairs ++ [p]).map Prod.fst).idxOf a < ((pairs ++ [p]).map Prod.fst).idxOf b :=
      ih.imp_of_mem fun {a b} ha hb hlt => by rwa [hold a ha, hold b hb]
    rw [keys_concat]
    split
    · exact hkept
    · next hnew =>
      rw [List.pairwise_append]
      refine ⟨hkept, List.pairwise_singleton _ _, fun a ha b hb => ?_⟩
      obtain rfl := List.mem_singleton.1 hb
      rw [hold a ha, List.map_append,
        List.idxOf_append_of_notMem fun hmem => hnew (mem_keys_iff.2 hmem)]
      exact Nat.lt_add_right _ (List.idxOf_lt_length_iff.2 (mem_keys_iff.1 ha))

theorem itemsOf_ne_nil_iff {key : Text} {pairs : List (Text × α)} :
    itemsOf key pairs ≠ [] ↔ key ∈ keys pairs := by
  rw [mem_keys_iff, itemsOf, ne_eq, List.map_eq_nil_iff, List.filter_eq_nil_iff, List.mem_map]
  simp

theorem snd_ne_nil_of_mem_groups {g : Text × List α} {pairs : List (Text × α)}
    (h : g ∈ groups pairs) : g.2 ≠ [] := by
  obtain ⟨key, hkey, rfl⟩ := List.mem_map.1 h
  exact itemsOf_ne_nil_iff.2 hkey

theorem lookup_groups (key : Text) (pairs : List (Text × α)) :
    (groups pairs).lookup key = if key ∈ keys pairs then some (itemsOf key pairs) else none := by
  rw [groups]
  induction keys pairs with
  | nil => rfl
  | cons k ks ih =>
    by_cases h : key = k
    · simp [h]
    · have hne : (key == k) = false := beq_eq_false_iff_ne.2 h
      simp [List.lookup_cons, hne, ih, h]

/-! ### Ungrouping -/

theorem ungroup_groups_cons (k : Text) (a : α) (rest : List (Text × α)) :
    ungroup (groups ((k, a) :: rest)) =
      (k, a) :: (rest.filter (·.1 = k) ++ ungroup (groups (others k rest))) := by
  have hpairs : (itemsOf k rest).map (fun item => (k, item)) = rest.filter (·.1 = k) := by
    rw [itemsOf, List.map_map]
    refine (List.map_congr_left fun p hp => ?_).trans (List.map_id _)
    have hkey : p.1 = k := by simpa using (List.mem_filter.1 hp).2
    rw [← hkey]
    rfl
  rw [groups_cons, ungroup, List.flatMap_cons, List.map_cons, hpairs]
  rfl

theorem perm_ungroup_groups (pairs : List (Text × α)) : (ungroup (groups pairs)).Perm pairs := by
  induction pairs using induction_keys with
  | nil => exact List.Perm.refl _
  | cons k a rest ih =>
    have hothers : others k rest = rest.filter fun p => !decide (p.1 = k) := by
      simp [others]
    rw [ungroup_groups_cons]
    refine List.Perm.cons _ ((ih.append_left _).trans ?_)
    rw [hothers]
    exact List.filter_append_perm _ rest

theorem mem_of_mem_groups {g : Text × List α} {item : α} {pairs : List (Text × α)}
    (h : g ∈ groups pairs) (hitem : item ∈ g.2) : (g.1, item) ∈ pairs :=
  (perm_ungroup_groups pairs).mem_iff.1
    (List.mem_flatMap.2 ⟨g, h, List.mem_map.2 ⟨item, hitem, rfl⟩⟩)

theorem map_snd_ungroup (gs : List (Text × List α)) :
    (ungroup gs).map Prod.snd = gs.flatMap Prod.snd := by
  rw [ungroup, List.map_flatMap]
  refine List.flatMap_congr fun g _ => ?_
  rw [List.map_map]
  exact List.map_id _

theorem length_flatMap_groups (pairs : List (Text × α)) :
    ((groups pairs).flatMap Prod.snd).length = pairs.length := by
  rw [← map_snd_ungroup, List.length_map, (perm_ungroup_groups pairs).length_eq]

theorem filter_ungroup_groups (key : Text) (pairs : List (Text × α)) :
    (ungroup (groups pairs)).filter (·.1 = key) = pairs.filter (·.1 = key) := by
  induction pairs using induction_keys with
  | nil => rfl
  | cons k a rest ih =>
    rw [ungroup_groups_cons, List.filter_cons, List.filter_append, ih, List.filter_filter,
      List.filter_cons, others, List.filter_filter]
    by_cases h : k = key
    · subst h
      simp
    · have hnone : ∀ p ∈ rest, (decide (p.1 = key) && decide (p.1 = k)) = false := by
        intro p _
        by_cases hp : p.1 = key <;> simp [hp, Ne.symm h]
      have hsame : ∀ p ∈ rest, (decide (p.1 = key) && decide (p.1 ≠ k)) = decide (p.1 = key) := by
        intro p _
        by_cases hp : p.1 = key <;> simp [hp, Ne.symm h]
      rw [List.filter_congr hnone, List.filter_congr hsame]
      simp [h]

/-! ### Grouping again -/

theorem itemsOf_ungroup_groups (key : Text) (pairs : List (Text × α)) :
    itemsOf key (ungroup (groups pairs)) = itemsOf key pairs := by
  rw [itemsOf, filter_ungroup_groups, itemsOf]

theorem keys_ungroup_groups (pairs : List (Text × α)) :
    keys (ungroup (groups pairs)) = keys pairs := by
  induction pairs using induction_keys with
  | nil => rfl
  | cons k a rest ih =>
    have hfirst : others k (rest.filter (·.1 = k)) = [] := by
      rw [others, List.filter_eq_nil_iff]
      exact fun p hp => by simpa using (List.mem_filter.1 hp).2
    have hlater : others k (ungroup (groups (others k rest))) =
        ungroup (groups (others k rest)) := by
      rw [others, List.filter_eq_self]
      exact fun p hp => (List.mem_filter.1 ((perm_ungroup_groups _).mem_iff.1 hp)).2
    rw [ungroup_groups_cons, keys_cons, others, List.filter_append, ← others, ← others, hfirst,
      hlater, List.nil_append, ih, ← keys_cons]

/-- What the groups hold has the same groups. -/
theorem groups_ungroup_groups (pairs : List (Text × α)) :
    groups (ungroup (groups pairs)) = groups pairs := by
  rw [groups, keys_ungroup_groups]
  exact List.map_congr_left fun key _ => by rw [itemsOf_ungroup_groups]

end DocPages.Grouping
