import DocPages.Proofs.DocBlock.Content
import DocPages.Proofs.Token.Enclosed
import DocPages.Proofs.Token.Spelling

/-!
# The closing mark of a documentation block

In a documentation block of a source text, the closing mark comes nowhere but at the very end
(`IsDocText`, `isDocText_of_mem_tokenize`), because a comment ends at the first one. Reading a line
takes off a mark at its end (`hasNoMark_undecorated`), so nothing that is read from such a block has a
mark in it, whether the block is closed or runs to the end of the source (`hasNoMarks_ofText`).
-/

namespace DocPages

open Text

/-! ### The text of a block -/

/-- The text of a documentation block: the opening mark, and text that makes the comment a documentation
block and has the closing mark nowhere but at its end. -/
structure IsDocText (t : Text) : Prop where
  exists_body : ∃ body, t = "/*".toList ++ body ∧ isDocBody body ∧ EndsAtMark body

/-- Other kinds say nothing about the text. -/
theorem IsDocText.of_other {k : TokenKind} {t : Text} (hk : (k == .docBlock) = false)
    (h : k = .docBlock) : IsDocText t := by
  rw [h] at hk
  exact absurd hk (by decide)

theorem isDocText_reach (c : Char) (cs : Text) :
    (reach c cs).kind = .docBlock → IsDocText (c :: (reach c cs).tail) := by
  by_cases hc : isNameStart c
  · rw [reach_of_isNameStart hc]
    intro hkind
    have hword := TokenKind.isWord_ofWord (c :: cs.takeWhile isNameChar)
    rw [show TokenKind.ofWord (c :: cs.takeWhile isNameChar) = .docBlock from hkind] at hword
    exact absurd hword (by decide)
  by_cases hg : isGap c
  · rw [reach_of_isGap hg]
    exact .of_other rfl
  unfold reach
  rw [if_neg hc, if_neg hg]
  -- Of the other lexemes, only a block comment can be a documentation block.
  split <;> try exact .of_other rfl
  · intro hkind
    refine ⟨_, rfl, ?_, endsAtMark_commentBody _⟩
    by_contra hdoc
    simp [Reach.upTo, commentKind, hdoc] at hkind
  · split <;> exact .of_other rfl
  · split <;> exact .of_other rfl

theorem isDocText_of_mem_tokenize {source : Text} {t : Token} (h : t ∈ tokenize source)
    (hkind : t.kind = .docBlock) : IsDocText t.text := by
  have hall := forall_mem_tokenize (P := fun k t => k = .docBlock → IsDocText t)
    isDocText_reach (fun _ _ _ _ => .of_other rfl) h
  exact hall hkind

/-! ### Taking off the mark -/

section Marks

variable {s t : Text}

theorem Text.EndsAtMark.of_isInfix (h : EndsAtMark t) (hs : s <:+: t) : EndsAtMark s := by
  obtain ⟨a, b, rfl⟩ := hs
  intro x r hx
  have hnil : r ++ b = [] := h (a ++ x) (r ++ b) (by simp [hx])
  exact (List.append_eq_nil_iff.1 hnil).1

theorem hasNoMark_withoutEnd (h : EndsAtMark t) : HasNoMark (withoutEnd "*/".toList t) := by
  by_cases hend : "*/".toList <:+ t
  · obtain ⟨rest, rfl⟩ := hend
    rw [withoutEnd_append]
    rintro ⟨s, r, rfl⟩
    have hnil : r ++ "*/".toList = [] := h s (r ++ "*/".toList) (by simp)
    simp at hnil
  · rw [withoutEnd_of_not_isSuffix hend]
    rintro ⟨s, r, rfl⟩
    have hnil : r = [] := h s r (by simp)
    exact hend ⟨s, by rw [hnil]; simp⟩

theorem hasNoMark_joinLines {lines : List Text} (h : ∀ line ∈ lines, HasNoMark line) :
    HasNoMark (joinLines lines) := by
  induction lines with
  | nil => exact hasNoMark_of_not_mem (by simp [joinLines])
  | cons line lines ih =>
    have hrest := ih fun l hl => h l (List.mem_cons_of_mem _ hl)
    have hline := h line List.mem_cons_self
    cases lines with
    | nil => simpa [joinLines] using hline
    | cons l lines =>
      rw [joinLines, List.intercalate_cons_cons, List.append_assoc, List.singleton_append]
      exact (hasNoMark_append_cons (by decide) (by decide)).2 ⟨hline, hrest⟩

end Marks

namespace DocBlock

/-! ### Reading -/

section Reading

variable {line raw : Text}

/-- A mark at the end of a line is decoration, and trimming puts nothing together. -/
theorem hasNoMark_undecorated (h : EndsAtMark line) : HasNoMark (undecorated line) := by
  have hopened : withoutStart "/**".toList (trim line) <:+: line :=
    (withoutStart_isSuffix _ _).isInfix.trans (trim_isInfix line)
  have hclosed := hasNoMark_withoutEnd (h.of_isInfix hopened)
  refine hclosed.of_isInfix ?_
  exact (trim_isInfix _).trans ((withoutStart_isSuffix _ _).isInfix.trans (trim_isInfix _))

theorem hasNoMark_of_mem_contentLines (h : EndsAtMark raw) (hline : line ∈ contentLines raw) :
    HasNoMark line := by
  rw [contentLines_eq] at hline
  obtain ⟨piece, hpiece, rfl⟩ := List.mem_map.1 (List.mem_filter.1 hline).1
  exact hasNoMark_undecorated (h.of_isInfix (isInfix_of_mem_splitOn hpiece))

end Reading

/-- Nothing that a block says has the closing mark of a comment in it. -/
structure HasNoMarks (block : DocBlock) : Prop where
  description : HasNoMark block.description
  name : ∀ tag ∈ block.tags.toList, HasNoMark tag.1
  value : ∀ tag ∈ block.tags.toList, ∀ value ∈ tag.2, HasNoMark value

theorem IsTagLine.name_isInfix {line name value : Text} (h : IsTagLine line name value) :
    name <:+: line := by
  obtain ⟨blanks, -, -, rfl⟩ := h.exists_blanks
  exact ⟨['@'], blanks ++ value, by simp⟩

theorem IsTagLine.value_isInfix {line name value : Text} (h : IsTagLine line name value) :
    value <:+: line := by
  obtain ⟨blanks, -, -, rfl⟩ := h.exists_blanks
  exact ⟨'@' :: (name ++ blanks), [], by simp⟩

theorem hasNoMarks_ofText {raw : Text} (h : EndsAtMark raw) : (ofText raw).HasNoMarks := by
  have hlines : ∀ line ∈ contentLines raw, HasNoMark line :=
    fun _ hline => hasNoMark_of_mem_contentLines h hline
  have htags := hasTagLines_contentLines raw
  rw [ofText_eq]
  refine ⟨hasNoMark_joinLines fun line hline => ?_, fun tag htag => ?_, fun tag htag value hvalue => ?_⟩
  · exact hlines line ((List.takeWhile_sublist _).subset hline)
  · rw [Tags.toList_ofList] at htag
    obtain ⟨value, hvalue⟩ := List.exists_mem_of_ne_nil _ (Grouping.snd_ne_nil_of_mem_groups htag)
    obtain ⟨line, hline, hp⟩ := htags.exists_isTagLine (Grouping.mem_of_mem_groups htag hvalue)
    exact (hlines line hline).of_isInfix hp.name_isInfix
  · rw [Tags.toList_ofList] at htag
    obtain ⟨line, hline, hp⟩ := htags.exists_isTagLine (Grouping.mem_of_mem_groups htag hvalue)
    exact (hlines line hline).of_isInfix hp.value_isInfix

end DocBlock

/-- The text of a documentation block has the closing mark nowhere but at its end: the opening mark does
not make one with the star behind it. -/
theorem IsDocText.endsAtMark {t : Text} (h : IsDocText t) : EndsAtMark t := by
  obtain ⟨body, rfl, hdoc, hbody⟩ := h.exists_body
  intro s r hs
  match s with
  | [] => simp at hs
  | [_] =>
    -- The mark would begin with the star of the opening mark, but another star follows it.
    obtain ⟨-, rfl⟩ : _ ∧ body = '/' :: r := by simpa using hs
    exact absurd hdoc (by simp [isDocBody])
  | _ :: _ :: s =>
    obtain ⟨-, -, hs⟩ : _ ∧ _ ∧ body = s ++ '*' :: '/' :: r := by simpa using hs
    exact hbody s r hs

end DocPages
