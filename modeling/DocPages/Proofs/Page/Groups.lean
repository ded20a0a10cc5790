import DocPages.Page
import DocPages.Proofs.Grouping

/-!
# Declarations by namespace

Sorting declarations by namespace label is grouping them by it (`groupByLabel_eq`). The groups are a
stable partition of the declarations (`IsStablePartition`): their labels are distinct and stand in the
order in which they first occur, and a group holds the declarations of its label in order.

Main statement: `groupByLabel_isStablePartition`, also for what the groups hold, one after the other.
-/

namespace DocPages.Page

open Grouping

/-- Groups of declarations, each under a label. -/
abbrev Groups := List (Text × List Declaration)

/-- The labels of some groups. -/
def Groups.labels (gs : Groups) : List Text := gs.map Prod.fst

/-- The declarations of some groups, one group after the other. -/
def Groups.declarations (gs : Groups) : List Declaration := gs.flatMap Prod.snd

/-- The groups hold the given declarations, those with one label in one group and in order. -/
structure IsStablePartition (gs : Groups) (ds : List Declaration) : Prop where
  nodup_labels : gs.labels.Nodup
  mem_labels_iff : ∀ label, label ∈ gs.labels ↔ ∃ d ∈ ds, d.label = label
  /-- The labels stand in the order in which they first occur. -/
  pairwise_labels : gs.labels.Pairwise fun a b =>
    (ds.map Declaration.label).idxOf a < (ds.map Declaration.label).idxOf b
  ne_nil : ∀ g ∈ gs, g.2 ≠ []
  eq_filter : ∀ g ∈ gs, g.2 = ds.filter (·.label = g.1)
  perm : gs.declarations.Perm ds

/-- Declarations with their labels. -/
def labelled (ds : List Declaration) : List (Text × Declaration) := ds.map fun d => (d.label, d)

section Labelled

variable (ds : List Declaration)

theorem map_fst_labelled : (labelled ds).map Prod.fst = ds.map Declaration.label := by
  rw [labelled, List.map_map]
  rfl

theorem map_snd_labelled : (labelled ds).map Prod.snd = ds := by
  rw [labelled, List.map_map]
  exact List.map_id _

theorem itemsOf_labelled (label : Text) : itemsOf label (labelled ds) = ds.filter (·.label = label) := by
  rw [itemsOf, labelled, List.filter_map, List.map_map]
  exact List.map_id _

theorem addToGroup_eq_add (d : Declaration) (gs : Groups) : addToGroup d gs = add d.label d gs := by
  induction gs with
  | nil => rfl
  | cons g gs ih => rw [addToGroup, add, ih]

theorem groupByLabel_eq : groupByLabel ds = groups (labelled ds) := by
  have hadd : (fun gs d => addToGroup d gs) = fun (gs : Groups) d => add d.label d gs :=
    funext₂ fun gs d => addToGroup_eq_add d gs
  rw [groupByLabel, hadd, ← foldl_add, labelled, List.foldl_map]

theorem labels_groupByLabel : Groups.labels (groupByLabel ds) = keys (labelled ds) := by
  rw [Groups.labels, groupByLabel_eq, map_fst_groups]

theorem mem_labels_groupByLabel_iff {label : Text} :
    label ∈ Groups.labels (groupByLabel ds) ↔ ∃ d ∈ ds, d.label = label := by
  rw [labels_groupByLabel, mem_keys_iff, map_fst_labelled, List.mem_map]

theorem eq_filter_of_mem_groupByLabel {g : Text × List Declaration} (h : g ∈ groupByLabel ds) :
    g.2 = ds.filter (·.label = g.1) := by
  rw [groupByLabel_eq] at h
  obtain ⟨label, -, rfl⟩ := List.mem_map.1 h
  exact itemsOf_labelled ds label

theorem mem_of_mem_groupByLabel {g : Text × List Declaration} {d : Declaration}
    (hg : g ∈ groupByLabel ds) (hd : d ∈ g.2) : d ∈ ds := by
  rw [eq_filter_of_mem_groupByLabel ds hg] at hd
  exact (List.mem_filter.1 hd).1

theorem exists_label_eq_of_mem_groupByLabel {g : Text × List Declaration}
    (hg : g ∈ groupByLabel ds) : ∃ d ∈ ds, d.label = g.1 :=
  (mem_labels_groupByLabel_iff ds).1 (List.mem_map.2 ⟨g, hg, rfl⟩)

/-- In the groups, each declaration stands under its label. -/
theorem ungroup_groupByLabel :
    ungroup (groupByLabel ds) = labelled (Groups.declarations (groupByLabel ds)) := by
  rw [ungroup, labelled, Groups.declarations, List.map_flatMap]
  refine List.flatMap_congr fun g hg => List.map_congr_left fun d hd => ?_
  rw [eq_filter_of_mem_groupByLabel ds hg] at hd
  have hlabel : d.label = g.1 := by simpa using (List.mem_filter.1 hd).2
  rw [hlabel]

theorem perm_declarations_groupByLabel : (Groups.declarations (groupByLabel ds)).Perm ds := by
  have hperm := (perm_ungroup_groups (labelled ds)).map Prod.snd
  rwa [map_snd_labelled, map_snd_ungroup, ← groupByLabel_eq] at hperm

end Labelled

/-- Sorting declarations by namespace loses none and doubles none: it gives a group for each label, in
the order in which the labels first occur, with the declarations of the label in order. Sorting what
the groups hold gives the same groups. -/
theorem groupByLabel_isStablePartition (ds : List Declaration) :
    IsStablePartition (groupByLabel ds) ds ∧
      groupByLabel (Groups.declarations (groupByLabel ds)) = groupByLabel ds := by
  have hlabels := labels_groupByLabel ds
  refine ⟨⟨?_, fun label => mem_labels_groupByLabel_iff ds, ?_, fun g hg => ?_,
    fun g hg => eq_filter_of_mem_groupByLabel ds hg, ?_⟩, ?_⟩
  · rw [hlabels]
    exact nodup_keys _
  · rw [hlabels, ← map_fst_labelled]
    exact pairwise_idxOf_keys _
  · rw [groupByLabel_eq] at hg
    exact snd_ne_nil_of_mem_groups hg
  · exact perm_declarations_groupByLabel ds
  · rw [groupByLabel_eq (Groups.declarations _), ← ungroup_groupByLabel, groupByLabel_eq,
      groups_ungroup_groups]

end DocPages.Page
