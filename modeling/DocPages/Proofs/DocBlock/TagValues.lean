import DocPages.Proofs.DocBlock.Content

/-!
# The values of a tag

What a block says under one tag name are the values of the tag lines with that name, in order
(`tagValues`, `first?_tags_ofText`), as many as there are such lines (`length_tagValues`). One more line
in a block (`contentLines_insert`) adds at most one value under one name, behind the values of the lines
in front of it (`tagValues_append`).
-/

namespace DocPages.DocBlock

open Text Grouping

/-- The values of the tag lines with a given name. -/
def tagValues (name : Text) (content : List Text) : List Text :=
  itemsOf name (content.filterMap tagOfLine?)

section Values

variable {line name value : Text}

theorem exists_isTagLine_iff :
    (∃ value, IsTagLine line name value) ↔ (tagOfLine? line).map Prod.fst = some name := by
  rw [Option.map_eq_some_iff]
  constructor
  · rintro ⟨value, h⟩
    exact ⟨_, h.tagOfLine?_eq, rfl⟩
  · rintro ⟨p, h, rfl⟩
    obtain ⟨value, -, htag⟩ := exists_isTagLine_of_tagOfLine? h
    exact ⟨value, htag⟩

instance (line name : Text) : Decidable (∃ value, IsTagLine line name value) :=
  decidable_of_iff _ exists_isTagLine_iff.symm

/-- The number of tag lines with a given name. -/
def tagCount (name : Text) (content : List Text) : Nat :=
  content.countP fun line => ∃ value, IsTagLine line name value

theorem tagValues_append (name : Text) (before after : List Text) :
    tagValues name (before ++ after) = tagValues name before ++ tagValues name after := by
  simp only [tagValues, itemsOf, List.filterMap_append, List.filter_append, List.map_append]

theorem length_tagValues (name : Text) (content : List Text) :
    (tagValues name content).length = tagCount name content := by
  rw [tagValues, itemsOf, List.length_map, ← List.countP_eq_length_filter, List.countP_filterMap,
    tagCount]
  refine List.countP_congr fun line _ => ?_
  simp only [exists_isTagLine_iff, decide_eq_true_eq]
  cases tagOfLine? line <;> simp

theorem tagValues_ne_nil {content : List Text} (hline : line ∈ content)
    (h : IsTagLine line name value) : tagValues name content ≠ [] := by
  rw [← List.length_pos_iff_ne_nil, length_tagValues, tagCount, List.countP_pos_iff]
  exact ⟨line, hline, by simpa using ⟨value, h⟩⟩

theorem IsTagLine.tagValues_eq (h : IsTagLine line name value) (ht : IsTrimmed line) (key : Text) :
    tagValues key [line] = if name = key then [value] else [] := by
  rw [tagValues, List.filterMap_cons_some ((tagOfLine?_eq_some_iff ht).2 h), itemsOf]
  split
  · next he => simp [he]
  · next hne => simp [hne]

theorem IsTagLine.tagValues_of_ne (h : IsTagLine line name value) (ht : IsTrimmed line) {key : Text}
    (hne : name ≠ key) : tagValues key [line] = [] := by
  rw [h.tagValues_eq ht, if_neg hne]

theorem IsTagLine.ne_nil (h : IsTagLine line name value) : line ≠ [] := by
  obtain ⟨blanks, -, -, rfl⟩ := h.exists_blanks
  exact List.cons_ne_nil _ _

theorem tagValues_of_not_isTagLine (h : ¬ ∃ name value, IsTagLine line name value) (key : Text) :
    tagValues key [line] = [] := by
  have hnone : tagOfLine? line = none := by
    rwa [← Option.not_isSome_iff_eq_none, isSome_tagOfLine?_iff]
  rw [tagValues, List.filterMap_cons_none hnone]
  rfl

end Values

section Block

variable (name raw : Text)

theorem get?_tags_ofText :
    (ofText raw).tags.get? name = if tagValues name (contentLines raw) = [] then none
      else some (tagValues name (contentLines raw)) := by
  have hkey : tagValues name (contentLines raw) = [] ↔
      name ∉ ((contentLines raw).filterMap tagOfLine?).map Prod.fst := by
    rw [← mem_keys_iff, ← itemsOf_ne_nil_iff, not_not, tagValues]
  rw [ofText_eq, Tags.get?_ofList]
  simp only [hkey, ite_not]
  rfl

theorem first?_tags_ofText :
    (ofText raw).tags.first? name = (tagValues name (contentLines raw)).head? := by
  rw [ofText_eq, Tags.first?_ofList, tagValues]

end Block

/-! ### One more line -/

section Insert

variable {before line after : Text}

theorem contentLines_insert (hline : '\n' ∉ line) (hafter : ∀ c ∈ after.head?, c = '\n') :
    contentLines (before ++ '\n' :: line ++ after) =
      contentLines before ++ contentOf [line] ++ contentLines after := by
  rw [contentLines_append hafter, contentLines_append_cons, contentLines_of_not_mem hline]

end Insert

/-- Behind a line with a leading `@` nothing belongs to the description. -/
theorem takeWhile_append_of_startsTag {before : List Text} (h : ∃ line ∈ before, startsTag line)
    (after : List Text) :
    (before ++ after).takeWhile (fun line => !startsTag line) =
      before.takeWhile fun line => !startsTag line := by
  rw [List.takeWhile_append, if_neg]
  intro hlength
  have hall := (List.takeWhile_prefix fun line => !startsTag line).eq_of_length hlength
  obtain ⟨line, hline, hstarts⟩ := h
  rw [← hall] at hline
  simpa [hstarts] using List.mem_takeWhile_imp hline

end DocPages.DocBlock
