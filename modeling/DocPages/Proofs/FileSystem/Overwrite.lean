import DocPages.Proofs.FileSystem.Write

/-!
# Writing files over themselves

When files are put at some locations one after the other (`putFiles`), the last one at each location
stays, and all other locations keep what they have (`lookup_putFiles`). To put the same files again
changes nothing, not even the order in which directories list their entries (`putFiles_putFiles`).
-/

namespace DocPages

namespace FileSystem

/-! ### Entries -/

section Entries

variable {loc : Location} {node : Node} {es es' : List (Location × Node)}

theorem map_fst_putEntry (h : loc ∈ es.map Prod.fst) :
    (putEntry loc node es).map Prod.fst = es.map Prod.fst := by
  induction es with
  | nil => simp at h
  | cons e es ih =>
    obtain ⟨l, n⟩ := e
    unfold putEntry
    split
    · next hl => rw [List.map_cons, List.map_cons, hl]
    · next hl =>
      rw [List.map_cons, List.mem_cons] at h
      rw [List.map_cons, List.map_cons, ih (h.resolve_left (Ne.symm hl))]

theorem lookup_eq_none_of_not_mem (h : loc ∉ es.map Prod.fst) : es.lookup loc = none := by
  rw [List.lookup_eq_none_iff]
  intro e he
  rw [bne_iff_ne]
  rintro rfl
  exact h (List.mem_map_of_mem he)

/-- Entries at the same locations with the same nodes are the same. -/
theorem eq_of_lookup_eq (hkeys : es.map Prod.fst = es'.map Prod.fst) (hn : (es.map Prod.fst).Nodup)
    (h : ∀ l, es.lookup l = es'.lookup l) : es = es' := by
  induction es generalizing es' with
  | nil => exact (List.map_eq_nil_iff.1 hkeys.symm).symm
  | cons e es ih =>
    cases es' with
    | nil => contradiction
    | cons e' es' =>
      obtain ⟨l, n⟩ := e
      obtain ⟨l', n'⟩ := e'
      rw [List.map_cons, List.map_cons, List.cons.injEq] at hkeys
      obtain ⟨rfl, hkeys⟩ : l = l' ∧ es.map Prod.fst = es'.map Prod.fst := hkeys
      rw [List.map_cons, List.nodup_cons] at hn
      have hnode : n = n' := by simpa using h l
      have hrest : es = es' := by
        refine ih hkeys hn.2 fun k => ?_
        by_cases hk : k = l
        · rw [hk, lookup_eq_none_of_not_mem hn.1, lookup_eq_none_of_not_mem (hkeys ▸ hn.1)]
        · simpa [List.lookup_cons, beq_eq_false_iff_ne.2 hk] using h k
      rw [hnode, hrest]

end Entries

/-! ### Files -/

variable {fs fs' : FileSystem} {l : Location} {b : Bytes} {files : List (Location × Bytes)}

theorem eq_of_entries_eq (h : fs.entries = fs'.entries)
    (hdir : fs.workingDirectory = fs'.workingDirectory) : fs = fs' := by
  cases fs
  cases fs'
  cases h
  cases hdir
  rfl

/-- Puts files at locations, one after the other. -/
def putFiles (fs : FileSystem) (files : List (Location × Bytes)) : FileSystem :=
  files.foldl (fun fs f => fs.put f.1 (.file f.2)) fs

theorem workingDirectory_putFiles (fs : FileSystem) (files : List (Location × Bytes)) :
    (fs.putFiles files).workingDirectory = fs.workingDirectory := by
  induction files generalizing fs with
  | nil => rfl
  | cons f files ih => exact ih _

/-- The last file that is put at a location stays there. -/
theorem lookup_putFiles (fs : FileSystem) (files : List (Location × Bytes)) (l : Location) :
    (fs.putFiles files).entries.lookup l =
      ((files.reverse.lookup l).map Node.file).or (fs.entries.lookup l) := by
  induction files generalizing fs with
  | nil => rfl
  | cons f files ih =>
    obtain ⟨l', b⟩ := f
    have hput : (fs.put l' (.file b)).entries.lookup l =
        (([(l', b)].lookup l).map Node.file).or (fs.entries.lookup l) := by
      rw [put, lookup_putEntry]
      by_cases hl : l = l'
      · simp [hl]
      · simp [hl, List.lookup_cons, beq_eq_false_iff_ne.2 hl]
    refine (ih _).trans ?_
    rw [hput, List.reverse_cons, List.lookup_append, Option.map_or, Option.or_assoc]

theorem map_fst_putFiles (h : ∀ f ∈ files, f.1 ∈ fs.entries.map Prod.fst) :
    (fs.putFiles files).entries.map Prod.fst = fs.entries.map Prod.fst := by
  induction files generalizing fs with
  | nil => rfl
  | cons f files ih =>
    have hput : (fs.put f.1 (.file f.2)).entries.map Prod.fst = fs.entries.map Prod.fst :=
      map_fst_putEntry (h f List.mem_cons_self)
    refine (ih fun f' hf' => ?_).trans hput
    rw [hput]
    exact h f' (List.mem_cons_of_mem _ hf')

theorem mem_map_fst_putFiles {f : Location × Bytes} (hf : f ∈ files) :
    f.1 ∈ (fs.putFiles files).entries.map Prod.fst := by
  by_contra hmem
  have hnone := lookup_eq_none_of_not_mem hmem
  rw [lookup_putFiles, Option.or_eq_none_iff, Option.map_eq_none_iff, List.lookup_eq_none_iff]
    at hnone
  have hne := hnone.1 f (List.mem_reverse.2 hf)
  simp at hne

/-- Files that are put where they have just been put change nothing. -/
theorem putFiles_putFiles (fs : FileSystem) (files : List (Location × Bytes)) :
    (fs.putFiles files).putFiles files = fs.putFiles files := by
  have hkeys : ((fs.putFiles files).putFiles files).entries.map Prod.fst =
      (fs.putFiles files).entries.map Prod.fst :=
    map_fst_putFiles fun f hf => mem_map_fst_putFiles hf
  have hentries : ((fs.putFiles files).putFiles files).entries = (fs.putFiles files).entries := by
    refine eq_of_lookup_eq hkeys (distinct _) fun l => ?_
    rw [lookup_putFiles, lookup_putFiles, ← Option.or_assoc, Option.or_self]
  exact eq_of_entries_eq hentries (workingDirectory_putFiles _ _)

/-! ### Where there is room -/

/-- Putting a file takes no room away and makes none. -/
theorem HasRoom.of_put {l' : Location} (hl : fs.HasRoom l) (h : (fs.put l (.file b)).HasRoom l') :
    fs.HasRoom l' := by
  by_cases heq : l' = l
  · exact heq ▸ hl
  · intro node hn
    exact h node (by rw [hl.node?_put_of_ne heq, hn])

theorem HasRoom.put {l' : Location} (hl : fs.HasRoom l) (h : fs.HasRoom l') :
    (fs.put l (.file b)).HasRoom l' := by
  intro node hn
  by_cases heq : l' = l
  · rw [heq, hl.node?_put_self] at hn
    exact ⟨b, (Option.some.inj hn).symm⟩
  · rw [hl.node?_put_of_ne heq] at hn
    exact h node hn

end FileSystem

end DocPages
