import DocPages.Page
import DocPages.Proofs.DocBlock.TagValues

/-!
# The entry of a member

Of its documentation block, the entry of a member shows the description, the values of two tags, each
in a list, and the first value of a third one (`MemberText`, `memberEntry_eq`). So one more line in a
block changes little. Behind the first line with a leading `@`, most lines change nothing (`IsUnseen`),
and a line with a listed tag adds one bullet to its list, behind those of the lines in front of it.

Main statement: `memberEntry_insertLine`.
-/

namespace DocPages.Page

open Text DocBlock

/-- What the entry of a member shows of its documentation block. -/
structure MemberText where
  description : Text
  parameters : List Text
  result : Option Text
  exceptions : List Text
  deriving DecidableEq, Repr

/-- A heading over a bullet for each text, or nothing if there is none. -/
def codeList (heading : Text) (items : List Text) : Text :=
  if items = [] then [] else listing heading codeBullet items

/-- The line with the result, or nothing if there is none. -/
def resultLine (result : Option Text) : Text :=
  match result with
  | some value => paragraph ("**Returns:** ".toList ++ Text.inBackquotes value)
  | none => []

namespace MemberText

/-- What a documentation block says about a member. -/
def ofBlock (block : DocBlock) : MemberText where
  description := block.description
  parameters := (block.tags.get? "param".toList).getD []
  result := block.tags.first? "return".toList
  exceptions := (block.tags.get? "throws".toList).getD []

/-- What content lines say about a member. -/
def ofContent (content : List Text) : MemberText where
  description := joinLines (content.takeWhile fun line => !startsTag line)
  parameters := tagValues "param".toList content
  result := (tagValues "return".toList content).head?
  exceptions := tagValues "throws".toList content

/-- The entry of a member with the given name. -/
def entry (name : Text) (shown : MemberText) : Text :=
  paragraph ("### ".toList ++ Text.inBackquotes (name ++ "()".toList)) ++
    (describe shown.description ++ codeList "**Parameters:**".toList shown.parameters ++
      resultLine shown.result ++ codeList "**Throws:**".toList shown.exceptions) ++
    rule

end MemberText

section Entry

variable (name raw : Text)

theorem getD_get?_tags_ofText :
    ((ofText raw).tags.get? name).getD [] = tagValues name (contentLines raw) := by
  rw [get?_tags_ofText]
  split
  · next h => exact h.symm
  · rfl

theorem ofBlock_ofText :
    MemberText.ofBlock (ofText raw) = MemberText.ofContent (contentLines raw) := by
  rw [MemberText.ofBlock, getD_get?_tags_ofText, getD_get?_tags_ofText, first?_tags_ofText, ofText_eq]
  rfl

/-- The entry of a documented member shows what its block says about it. -/
theorem memberEntry_eq :
    memberEntry ⟨name, some raw⟩ = (MemberText.ofBlock (ofText raw)).entry name := by
  have hdescription : (ofText raw).description =
      (MemberText.ofContent (contentLines raw)).description := by
    rw [ofText_eq]
    rfl
  rw [ofBlock_ofText, MemberText.entry, ← hdescription]
  simp only [memberEntry, memberSections, get?_tags_ofText, first?_tags_ofText, codeList,
    MemberText.ofContent]
  by_cases hparam : tagValues "param".toList (contentLines raw) = [] <;>
    by_cases hthrows : tagValues "throws".toList (contentLines raw) = [] <;>
      simp only [hparam, hthrows, if_true, if_false] <;> rfl

end Entry

/-! ### One more line -/

/-- The names of the tags that an entry shows. -/
def shownTags : List Text := ["param".toList, "return".toList, "throws".toList]

/-- A line that an entry does not show, behind lines with the given content: one without an `@` or
without a tag name behind it, one with a name that is not listed, or a result behind another one. -/
inductive IsUnseen (before : List Text) (line : Text) : Prop
  | plain (h : line.head? ≠ some '@')
  | untagged (h : ¬ ∃ name value, IsTagLine line name value)
  | unlisted {name value : Text} (h : IsTagLine line name value) (hname : name ∉ shownTags)
  | laterResult {value : Text} (h : IsTagLine line "return".toList value)
    (hfirst : ∃ l ∈ before, ∃ value, IsTagLine l "return".toList value)

section Insert

variable {before : List Text} {line value : Text}

/-- Lines behind one with a leading `@` only matter for the values of the shown tags. -/
theorem ofContent_append (htag : ∃ l ∈ before, startsTag l) (lines : List Text) :
    MemberText.ofContent (before ++ lines) =
      { description := (MemberText.ofContent before).description
        parameters := tagValues "param".toList before ++ tagValues "param".toList lines
        result := (tagValues "return".toList before ++ tagValues "return".toList lines).head?
        exceptions := tagValues "throws".toList before ++ tagValues "throws".toList lines } := by
  simp only [MemberText.ofContent, tagValues_append, takeWhile_append_of_startsTag htag]

theorem not_isTagLine_of_head? (h : line.head? ≠ some '@') :
    ¬ ∃ name value, IsTagLine line name value := by
  rintro ⟨name, value, htag⟩
  exact h (startsTag_iff.1 htag.startsTag)

/-- A line that is not shown has no value of a shown tag, unless it is a later result. -/
theorem IsUnseen.tagValues_eq_nil (h : IsUnseen before line) (ht : IsTrimmed line) {key : Text}
    (hkey : key ∈ shownTags) :
    tagValues key [line] = [] ∨ key = "return".toList ∧ tagValues key before ≠ [] := by
  cases h with
  | plain h => exact Or.inl (tagValues_of_not_isTagLine (not_isTagLine_of_head? h) key)
  | untagged h => exact Or.inl (tagValues_of_not_isTagLine h key)
  | unlisted h hname => exact Or.inl (h.tagValues_of_ne ht fun he => hname (he ▸ hkey))
  | laterResult h hfirst =>
    by_cases he : "return".toList = key
    · obtain ⟨l, hl, value, htag⟩ := hfirst
      exact Or.inr ⟨he.symm, he ▸ tagValues_ne_nil hl htag⟩
    · exact Or.inl (h.tagValues_of_ne ht he)

theorem IsUnseen.ofContent_eq (h : IsUnseen before line) (ht : IsTrimmed line)
    (htag : ∃ l ∈ before, startsTag l) (after : List Text) :
    MemberText.ofContent (before ++ ([line] ++ after)) = MemberText.ofContent (before ++ after) := by
  have hparam : tagValues "param".toList [line] = [] :=
    (h.tagValues_eq_nil ht (by decide)).resolve_right fun hr => absurd hr.1 (by decide)
  have hthrows : tagValues "throws".toList [line] = [] :=
    (h.tagValues_eq_nil ht (by decide)).resolve_right fun hr => absurd hr.1 (by decide)
  have hresult : (tagValues "return".toList before ++ (tagValues "return".toList [line] ++
      tagValues "return".toList after)).head? =
        (tagValues "return".toList before ++ tagValues "return".toList after).head? := by
    have hkey : "return".toList ∈ shownTags := by decide
    rcases h.tagValues_eq_nil ht hkey with hnil | ⟨-, hne⟩
    · rw [hnil, List.nil_append]
    · rw [List.head?_append_of_ne_nil _ hne, List.head?_append_of_ne_nil _ hne]
  rw [ofContent_append htag, ofContent_append htag, tagValues_append, tagValues_append,
    tagValues_append, hparam, hthrows, hresult, List.nil_append, List.nil_append]

theorem ofContent_param (h : IsTagLine line "param".toList value) (ht : IsTrimmed line)
    (htag : ∃ l ∈ before, startsTag l) (after : List Text) :
    MemberText.ofContent (before ++ ([line] ++ after)) =
      { MemberText.ofContent (before ++ after) with
        parameters := tagValues "param".toList before ++ value :: tagValues "param".toList after } := by
  rw [ofContent_append htag, ofContent_append htag, tagValues_append, tagValues_append,
    tagValues_append, h.tagValues_eq ht, if_pos rfl, h.tagValues_of_ne ht (by decide),
    h.tagValues_of_ne ht (by decide)]
  rfl

theorem ofContent_throws (h : IsTagLine line "throws".toList value) (ht : IsTrimmed line)
    (htag : ∃ l ∈ before, startsTag l) (after : List Text) :
    MemberText.ofContent (before ++ ([line] ++ after)) =
      { MemberText.ofContent (before ++ after) with
        exceptions := tagValues "throws".toList before ++ value :: tagValues "throws".toList after } := by
  rw [ofContent_append htag, ofContent_append htag, tagValues_append, tagValues_append,
    tagValues_append, h.tagValues_of_ne ht (by decide), h.tagValues_of_ne ht (by decide),
    h.tagValues_eq ht, if_pos rfl]
  rfl

end Insert

theorem contentOf_singleton {line : Text} (h : undecorated line ≠ []) :
    contentOf [line] = [undecorated line] := by
  simp [contentOf, h]

/-- One more line in the block of a member, behind the first line with a leading `@`: the entry of the
member stays as it is if the line is not shown, and if it is a tag line for one of the two lists, only
that list changes, which has one more bullet, behind those of the lines in front. -/
theorem memberEntry_insertLine {before line after : Text} (name : Text) (hline : '\n' ∉ line)
    (hafter : ∀ c ∈ after.head?, c = '\n')
    (htag : ∃ l ∈ contentLines before, l.head? = some '@') :
    let shown := MemberText.ofBlock (ofText (before ++ after))
    let entry := memberEntry ⟨name, some (before ++ '\n' :: line ++ after)⟩
    memberEntry ⟨name, some (before ++ after)⟩ = shown.entry name ∧
      (IsUnseen (contentLines before) (undecorated line) → entry = shown.entry name) ∧
      (∀ value, IsTagLine (undecorated line) "param".toList value →
        ∃ earlier later, shown.parameters = earlier ++ later ∧
          earlier.length = tagCount "param".toList (contentLines before) ∧
          entry = { shown with parameters := earlier ++ value :: later }.entry name) ∧
      ∀ value, IsTagLine (undecorated line) "throws".toList value →
        ∃ earlier later, shown.exceptions = earlier ++ later ∧
          earlier.length = tagCount "throws".toList (contentLines before) ∧
          entry = { shown with exceptions := earlier ++ value :: later }.entry name := by
  intro shown entry
  have htag' : ∃ l ∈ contentLines before, startsTag l := by simpa only [startsTag_iff] using htag
  have hshown : shown = .ofContent (contentLines before ++ contentLines after) := by
    rw [← contentLines_append hafter]
    exact ofBlock_ofText _
  have hentry : entry = (MemberText.ofContent
      (contentLines before ++ (contentOf [line] ++ contentLines after))).entry name := by
    rw [← List.append_assoc, ← contentLines_insert hline hafter, ← ofBlock_ofText]
    exact memberEntry_eq _ _
  have hparts := ofContent_append htag' (contentLines after)
  refine ⟨memberEntry_eq _ _, fun hunseen => ?_, fun value hvalue => ?_, fun value hvalue => ?_⟩
  · by_cases hnil : undecorated line = []
    · have hnone : contentOf [line] = [] := by simp [contentOf, hnil]
      rw [hentry, hnone, hshown, List.nil_append]
    · rw [hentry, contentOf_singleton hnil, hunseen.ofContent_eq (isTrimmed_undecorated line) htag',
        hshown]
  · refine ⟨tagValues "param".toList (contentLines before),
      tagValues "param".toList (contentLines after), ?_, length_tagValues _ _, ?_⟩
    · rw [hshown, hparts]
    · rw [hentry, contentOf_singleton hvalue.ne_nil,
        ofContent_param hvalue (isTrimmed_undecorated line) htag', hshown]
  · refine ⟨tagValues "throws".toList (contentLines before),
      tagValues "throws".toList (contentLines after), ?_, length_tagValues _ _, ?_⟩
    · rw [hshown, hparts]
    · rw [hentry, contentOf_singleton hvalue.ne_nil,
        ofContent_throws hvalue (isTrimmed_undecorated line) htag', hshown]

/-- The lines of a block with two tags, up to its closing mark. -/
def twoTags : Text := "/**\n * @param a\n * @return b".toList

/-- The closing mark on a line of its own. -/
def closingLine : Text := "\n */".toList

theorem memberEntry_insertLine_twoTags :
    let name := "find".toList
    let shown := MemberText.ofBlock (ofText (twoTags ++ closingLine))
    shown = ⟨[], ["a".toList], some "b".toList, []⟩ ∧
      memberEntry ⟨name, some (twoTags ++ '\n' :: " * @return c".toList ++ closingLine)⟩ =
        shown.entry name ∧
      (∃ earlier later, shown.parameters = earlier ++ later ∧ earlier.length = 1 ∧
        memberEntry ⟨name, some (twoTags ++ '\n' :: " * @param d".toList ++ closingLine)⟩ =
          { shown with parameters := earlier ++ "d".toList :: later }.entry name) ∧
      ∃ earlier later, shown.exceptions = earlier ++ later ∧ earlier.length = 0 ∧
        memberEntry ⟨name, some (twoTags ++ '\n' :: " * @throws E".toList ++ closingLine)⟩ =
          { shown with exceptions := earlier ++ "E".toList :: later }.entry name := by
  intro name shown
  have hafter : ∀ c ∈ closingLine.head?, c = '\n' := fun _ hc => (Option.some.inj hc).symm
  have htag : ∃ l ∈ contentLines twoTags, l.head? = some '@' := by decide +kernel
  have htagLine {line value key : Text} (h : tagOfLine? (undecorated line) = some (key, value)) :
      IsTagLine (undecorated line) key value :=
    (tagOfLine?_eq_some_iff (isTrimmed_undecorated line)).1 h
  have hfirst : ∃ l ∈ contentLines twoTags, ∃ value, IsTagLine l "return".toList value := by
    decide +kernel
  have hlater : IsTagLine (undecorated " * @return c".toList) "return".toList "c".toList :=
    htagLine (by decide +kernel)
  have hparam : IsTagLine (undecorated " * @param d".toList) "param".toList "d".toList :=
    htagLine (by decide +kernel)
  have hthrows : IsTagLine (undecorated " * @throws E".toList) "throws".toList "E".toList :=
    htagLine (by decide +kernel)
  have hcount : tagCount "param".toList (contentLines twoTags) = 1 ∧
      tagCount "throws".toList (contentLines twoTags) = 0 := by decide +kernel
  refine ⟨by decide +kernel, ?_, ?_, ?_⟩
  · exact (memberEntry_insertLine name (by decide) hafter htag).2.1 (.laterResult hlater hfirst)
  · rw [← hcount.1]
    exact (memberEntry_insertLine name (by decide) hafter htag).2.2.1 _ hparam
  · rw [← hcount.2]
    exact (memberEntry_insertLine name (by decide) hafter htag).2.2.2 _ hthrows

end DocPages.Page
