import DocPages.Proofs.Token.Cut
import Mathlib.Data.List.Basic

/-!
# Enclosed texts

Block comments, quoted strings and heredocs hold arbitrary text up to the place where they end. This
module says what such a text looks like without reading it from left to right: a comment has its
closing mark once (`Text.IsClosed`), in a string every quote and every backslash is escaped
(`QuotedText`), and a heredoc has a header (`HeredocHeader`) and lines that do not close it up to one
that does (`HeredocText`). The lines of a heredoc are read in rounds (`LineRounds`).

Main statements: a text of such a form ends where its form says, whatever follows
(`commentBody_append_of_isClosed`, `quotedBody_append_of_quotedText`, `heredoc?_append_of_heredocText`),
and whatever ends in front of the end of the source has such a form (`isClosed_of_commentBody`,
`exists_quotedText_of_quotedBody`, `exists_heredocText_of_heredoc?`).
-/

namespace DocPages

open Text

variable {t u v : Text}

/-! ### Block comments -/

/-- A text in which the closing mark of a comment comes nowhere but at the very end. -/
def Text.EndsAtMark (t : Text) : Prop := ∀ s r, t = s ++ '*' :: '/' :: r → r = []

/-- A comment has no closing mark but that at its end. -/
theorem endsAtMark_commentBody (t : Text) : EndsAtMark (commentBody t).1 := by
  fun_induction commentBody t with
  | case1 rest => exact (isClosed_append (t := []) (by simp)).once
  | case2 c cs hnot ih =>
    intro s r hs
    cases s with
    | nil =>
      have hsplit := commentBody_append cs
      simp only [fst_keep, List.nil_append, List.cons.injEq] at hs
      rw [hs.2] at hsplit
      exact absurd hsplit.symm (hnot _ hs.1)
    | cons d s =>
      simp only [fst_keep, List.cons_append, List.cons.injEq] at hs
      exact ih s r hs.2
  | case3 =>
    intro s r hs
    simp at hs

/-- A comment that ends in front of some text is closed. -/
theorem isClosed_of_commentBody (h : commentBody t = (u, v)) (hv : v ≠ []) : IsClosed u := by
  have honce : EndsAtMark u := by
    have hbody := endsAtMark_commentBody t
    rwa [h] at hbody
  refine ⟨?_, honce⟩
  clear honce
  fun_induction commentBody t generalizing u with
  | case1 rest =>
    cases h
    exact List.suffix_rfl
  | case2 c cs hnot ih =>
    obtain ⟨rfl, rfl⟩ := Prod.ext_iff.1 h
    exact (ih rfl).trans (List.suffix_cons _ _)
  | case3 =>
    cases h
    exact absurd rfl hv

/-! ### Quoted strings -/

/-- What may stand between two quotes `q`: no quote and no backslash, except behind a backslash. -/
inductive QuotedText (q : Char) : Text → Prop
  | nil : QuotedText q []
  | plain {c t} (hq : c ≠ q) (hb : c ≠ '\\') (h : QuotedText q t) : QuotedText q (c :: t)
  | escape {c t} (h : QuotedText q t) : QuotedText q ('\\' :: c :: t)

section Quoted

variable {q : Char}

theorem quotedText_of_not_mem (hq : q ∉ t) (hb : '\\' ∉ t) : QuotedText q t := by
  induction t with
  | nil => exact .nil
  | cons c cs ih =>
    rw [List.mem_cons, not_or] at hq hb
    exact .plain (Ne.symm hq.1) (Ne.symm hb.1) (ih hq.2 hb.2)

/-- A string ends at its closing quote, whatever follows. -/
theorem quotedBody_append_of_quotedText (hq : q ≠ '\\') (h : QuotedText q t) (rest : Text) :
    quotedBody q (t ++ q :: rest) = (t ++ [q], rest) := by
  induction h with
  | nil =>
    rw [List.nil_append, quotedBody, if_pos rfl]
    · rfl
    · intro d ds he
      exact absurd he hq
  | @plain c t hc hb h ih =>
    rw [List.cons_append, quotedBody, if_neg hc, ih]
    · rfl
    · intro d ds he
      exact absurd he hb
  | @escape c t h ih =>
    rw [List.cons_append, List.cons_append, quotedBody, ih]
    rfl

/-- A string that ends in front of some text is closed. -/
theorem exists_quotedText_of_quotedBody (h : quotedBody q t = (u, v)) (hv : v ≠ []) :
    ∃ inner, QuotedText q inner ∧ u = inner ++ [q] := by
  fun_induction quotedBody q t generalizing u with
  | case1 c cs ih =>
    obtain ⟨rfl, rfl⟩ := Prod.ext_iff.1 h
    obtain ⟨inner, hinner, hu⟩ := ih rfl
    exact ⟨'\\' :: c :: inner, .escape hinner, by simp only [fst_keep, hu, List.cons_append]⟩
  | case2 cs hnot =>
    cases h
    exact ⟨[], .nil, rfl⟩
  | case3 c cs hnot hne ih =>
    obtain ⟨rfl, rfl⟩ := Prod.ext_iff.1 h
    obtain ⟨inner, hinner, hu⟩ := ih rfl
    have hb : c ≠ '\\' := by
      -- A backslash is followed by a character here, or else nothing would be left over.
      rintro rfl
      cases cs with
      | nil => exact hv rfl
      | cons d ds => exact hnot d ds rfl rfl
    exact ⟨c :: inner, .plain hne hb hinner, by simp only [fst_keep, hu, List.cons_append]⟩
  | case4 =>
    cases h
    exact absurd rfl hv

end Quoted

/-! ### The opening line of a heredoc -/

/-- The rest of a line that opens a heredoc: blanks, a label, alone or between two quotes, and a line
break. -/
structure HeredocHeader where
  indent : Text
  quote : Text
  label : Text
  newline : Text
  isIndent_of_mem : ∀ c ∈ indent, isIndent c
  quote_eq : quote = [] ∨ quote = ['\''] ∨ quote = ['"']
  isWord_label : isWord label
  newline_eq : newline = ['\n'] ∨ newline = ['\r', '\n']

theorem isPrefixOf?_append (p rest : Text) : p.isPrefixOf? (p ++ rest) = some rest :=
  List.isPrefixOf?_eq_some_iff_append_eq.2 rfl

theorem isIndent_eq_false_of_isNameChar {c : Char} (h : isNameChar c) : isIndent c = false := by
  by_contra hc
  rw [Bool.not_eq_false, isIndent, Bool.or_eq_true, beq_iff_eq, beq_iff_eq] at hc
  rcases hc with rfl | rfl
  · exact absurd h (by decide)
  · exact absurd h (by decide)

namespace HeredocHeader

/-- The whole line behind the opening mark. -/
def text (h : HeredocHeader) : Text := h.indent ++ h.quote ++ h.label ++ h.quote ++ h.newline

variable (h : HeredocHeader) (rest : Text)

theorem exists_label_eq : ∃ c cs, h.label = c :: cs ∧ isNameStart c := by
  have hword := h.isWord_label
  cases hl : h.label with
  | nil => simp [hl, isWord] at hword
  | cons c cs =>
    rw [hl, isWord, Bool.and_eq_true] at hword
    exact ⟨c, cs, rfl, hword.1⟩

theorem openingQuote_quote : openingQuote (h.quote ++ h.label ++ rest) = h.quote := by
  obtain ⟨c, cs, hl, hc⟩ := h.exists_label_eq
  rcases h.quote_eq with hq | hq | hq
  · rw [hq, hl, List.nil_append, List.cons_append, openingQuote]
    · intro _ he
      rw [(List.cons.inj he).1] at hc
      exact absurd hc (by decide)
    · intro _ he
      rw [(List.cons.inj he).1] at hc
      exact absurd hc (by decide)
  · rw [hq]
    rfl
  · rw [hq]
    rfl

theorem isNameChar_head?_quote :
    ∀ c ∈ (h.quote ++ h.newline ++ rest).head?, isNameChar c = false := by
  rcases h.quote_eq with hq | hq | hq <;> rcases h.newline_eq with hn | hn <;> simp [hq, hn] <;> rfl

theorem isIndent_head?_quote :
    ∀ c ∈ (h.quote ++ h.label ++ rest).head?, isIndent c = false := by
  obtain ⟨c, cs, hl, -⟩ := h.exists_label_eq
  have hc := isIndent_eq_false_of_isNameChar
    (isNameChar_of_mem h.isWord_label (hl ▸ List.mem_cons_self))
  rcases h.quote_eq with hq | hq | hq
  · simp [hq, hl, hc]
  · simp [hq]
    rfl
  · simp [hq]
    rfl

theorem lineBreak?_newline : lineBreak? (h.newline ++ rest) = some h.newline := by
  rcases h.newline_eq with hn | hn <;> rw [hn] <;> rfl

/-- The header opens a heredoc, whatever follows. -/
theorem heredocOpening?_text : heredocOpening? (h.text ++ rest) = some ⟨h.label, h.text, rest⟩ := by
  obtain ⟨c, cs, hl, hc⟩ := h.exists_label_eq
  have hall : ∀ d ∈ h.label, isNameChar d := fun d hd => isNameChar_of_mem h.isWord_label hd
  have hsplit : h.text ++ rest =
      h.indent ++ (h.quote ++ h.label ++ (h.quote ++ h.newline ++ rest)) := by
    simp only [text, List.append_assoc]
  have hindent := h.isIndent_head?_quote (h.quote ++ h.newline ++ rest)
  have hname := h.isNameChar_head?_quote rest
  unfold heredocOpening?
  simp only [hsplit, takeWhile_append_of_boundary h.isIndent_of_mem hindent,
    dropWhile_append_of_boundary h.isIndent_of_mem hindent, openingQuote_quote]
  rw [List.append_assoc h.quote, List.drop_left, takeWhile_append_of_boundary hall hname,
    dropWhile_append_of_boundary hall hname, if_pos (by simp [hl, hc]),
    List.append_assoc h.quote, isPrefixOf?_append]
  simp [lineBreak?_newline, text]

end HeredocHeader

theorem lineBreak?_eq_some {b : Text} (h : lineBreak? t = some b) : b = ['\n'] ∨ b = ['\r', '\n'] := by
  unfold lineBreak? at h
  split at h
  · exact Or.inr (Option.some.inj h).symm
  · exact Or.inl (Option.some.inj h).symm
  · contradiction

theorem openingQuote_eq (t : Text) :
    openingQuote t = [] ∨ openingQuote t = ['\''] ∨ openingQuote t = ['"'] := by
  unfold openingQuote
  split
  · exact Or.inr (Or.inl rfl)
  · exact Or.inr (Or.inr rfl)
  · exact Or.inl rfl

/-- Every line that opens a heredoc has the form of a header. -/
theorem exists_header_of_heredocOpening? {o : HeredocOpening} (h : heredocOpening? t = some o) :
    ∃ header : HeredocHeader, o = ⟨header.label, header.text, o.body⟩ := by
  simp only [heredocOpening?] at h
  split at h
  · next hlabel =>
    simp only [Option.bind_eq_bind, Option.bind_eq_some_iff, Option.some.injEq] at h
    obtain ⟨after, -, newline, hnewline, rfl⟩ := h
    set quote := openingQuote (t.dropWhile isIndent) with hquote
    set label := ((t.dropWhile isIndent).drop quote.length).takeWhile isNameChar with hlabel_eq
    have hword : isWord label := by
      cases hl : label with
      | nil => simp [hl] at hlabel
      | cons c cs =>
        rw [hl, List.head?_cons, Option.any_some] at hlabel
        rw [isWord, hlabel, Bool.true_and, List.all_eq_true]
        intro d hd
        apply List.mem_takeWhile_imp (p := isNameChar)
        rw [← hlabel_eq, hl]
        exact List.mem_cons_of_mem _ hd
    exact ⟨⟨t.takeWhile isIndent, quote, label, newline, fun c hc => List.mem_takeWhile_imp hc,
      openingQuote_eq _, hword, lineBreak?_eq_some hnewline⟩, rfl⟩
  · contradiction

/-! ### The line that closes a heredoc -/

/-- The line starts with the label, behind blanks, and no longer name stands there. -/
def ClosesHeredoc (label line : Text) : Prop :=
  ∃ indent rest, line = indent ++ label ++ rest ∧ (∀ c ∈ indent, isIndent c) ∧
    ∀ c ∈ rest.head?, isNameChar c = false

/-- The body of a heredoc: lines that do not close it, and the line that does up to its label. -/
inductive HeredocText (label : Text) : Text → Prop
  | close {indent} (hi : ∀ c ∈ indent, isIndent c) : HeredocText label (indent ++ label)
  | line {s t} (hs : '\n' ∉ s) (hn : ¬ ClosesHeredoc label s) (h : HeredocText label t) :
      HeredocText label (s ++ '\n' :: t)

/-- The body of a heredoc is read line by line, in so many rounds, up to the line that closes it or to the
end of the last line. -/
inductive LineRounds (label : Text) : Nat → Text → Text × Text → Prop
  | close {t : Text} {p : Text × Text} (h : closingLabel? label t = some p) : LineRounds label 1 t p
  | last {t : Text} (h : closingLabel? label t = none) (ht : '\n' ∉ t) : LineRounds label 1 t (t, [])
  | next {n : Nat} {s t : Text} {p : Text × Text} (h : closingLabel? label (s ++ '\n' :: t) = none)
      (hs : '\n' ∉ s) (rounds : LineRounds label n t p) :
      LineRounds label (n + 1) (s ++ '\n' :: t) (s ++ '\n' :: p.1, p.2)

section Closing

variable {label s indent : Text} {n : Nat} {p : Text × Text}

theorem closingLabel?_boundary (h : closingLabel? label t = some (u, v)) :
    ∀ c ∈ v.head?, isNameChar c = false := by
  simp only [closingLabel?, Option.bind_eq_bind, Option.bind_eq_some_iff] at h
  obtain ⟨rest, -, h⟩ := h
  split at h
  · contradiction
  · next hnot =>
    obtain ⟨-, rfl⟩ := Prod.ext_iff.1 (Option.some.inj h)
    intro c hc
    rw [Option.mem_def] at hc
    simpa [hc] using hnot

theorem fst_of_closingLabel? (h : closingLabel? label t = some (u, v)) :
    u = t.takeWhile isIndent ++ label := by
  simp only [closingLabel?, Option.bind_eq_bind, Option.bind_eq_some_iff] at h
  obtain ⟨rest, -, h⟩ := h
  split at h
  · contradiction
  · exact (Prod.ext_iff.1 (Option.some.inj h)).1.symm

theorem exists_indent_of_closingLabel? (h : closingLabel? label t = some (u, v)) :
    ∃ indent, u = indent ++ label ∧ ∀ c ∈ indent, isIndent c :=
  ⟨_, fst_of_closingLabel? h, fun _ hc => List.mem_takeWhile_imp hc⟩

/-- A label closes a heredoc where no name char follows. -/
theorem closingLabel?_append_label (hl : isWord label) (hu : ∀ c ∈ u, isIndent c)
    (hv : ∀ c ∈ v.head?, isNameChar c = false) :
    closingLabel? label (u ++ (label ++ v)) = some (u ++ label, v) := by
  have hboundary : ∀ c ∈ (label ++ v).head?, isIndent c = false := by
    cases label with
    | nil => simp [isWord] at hl
    | cons c cs =>
      rw [isWord, Bool.and_eq_true] at hl
      intro d hd
      obtain rfl : c = d := Option.some.inj hd
      apply isIndent_eq_false_of_isNameChar
      rw [isNameChar, hl.1, Bool.true_or]
  have hnot : v.head?.any isNameChar = false := by
    rw [Option.any_eq_false]
    exact fun c hc => by simp [hv c hc]
  unfold closingLabel?
  rw [dropWhile_append_of_boundary hu hboundary, takeWhile_append_of_boundary hu hboundary,
    isPrefixOf?_append]
  simp [hnot]

theorem not_mem_indent_append_label (hl : isWord label) (hi : ∀ c ∈ indent, isIndent c) :
    '\n' ∉ indent ++ label := by
  intro hm
  rcases List.mem_append.1 hm with hm | hm
  · exact absurd (hi _ hm) (by decide)
  · exact absurd (isNameChar_of_mem hl hm) (by decide)

/-- Whether a line closes a heredoc does not depend on what follows it. -/
theorem closingLabel?_line (hl : isWord label) (hs : '\n' ∉ s) (rest : Text) :
    closingLabel? label (s ++ '\n' :: rest) = none ↔ ¬ ClosesHeredoc label s := by
  rw [← not_iff_not, not_not, ← Ne, Option.ne_none_iff_exists']
  constructor
  · rintro ⟨⟨u, v⟩, h⟩
    obtain ⟨indent, rfl, hindent⟩ := exists_indent_of_closingLabel? h
    have hv := closingLabel?_boundary h
    have hline := not_mem_indent_append_label hl hindent
    rcases List.append_eq_append_iff.1 (closingLabel?_append h) with ⟨a, hs', rfl⟩ | ⟨a, hu, hv'⟩
    · refine ⟨indent, a, hs', hindent, ?_⟩
      cases a with
      | nil => simp
      | cons c cs => exact hv
    · cases a with
      | nil =>
        rw [List.append_nil] at hu
        exact ⟨indent, [], by rw [← hu, List.append_nil], hindent, by simp⟩
      | cons c cs =>
        obtain rfl : '\n' = c := (List.cons.inj hv').1
        have hu' : indent ++ label = s ++ '\n' :: cs := hu
        rw [hu'] at hline
        exact absurd (List.mem_append_right _ List.mem_cons_self) hline
  · rintro ⟨indent, after, rfl, hindent, hafter⟩
    refine ⟨(indent ++ label, after ++ '\n' :: rest), ?_⟩
    rw [List.append_assoc, List.append_assoc]
    refine closingLabel?_append_label hl hindent ?_
    cases after with
    | nil => simp; rfl
    | cons c cs => exact hafter

/-! ### Lines of the body -/

theorem heredocBody_of_closingLabel? (hl : isWord label) (h : closingLabel? label t = some (u, v)) :
    heredocBody label true t = (u, v) := by
  cases t with
  | nil =>
    obtain ⟨hu, -⟩ := List.append_eq_nil_iff.1 (closingLabel?_append h)
    obtain ⟨indent, rfl, -⟩ := exists_indent_of_closingLabel? h
    rw [(List.append_eq_nil_iff.1 hu).2] at hl
    exact absurd hl (by decide)
  | cons c cs =>
    rw [heredocBody, if_pos rfl]
    simp only [h]

/-- A line that does not close the heredoc is passed over. -/
theorem heredocBody_of_closingLabel?_eq_none (h : closingLabel? label t = none) :
    heredocBody label true t = heredocBody label false t := by
  cases t with
  | nil => rfl
  | cons c cs => simp [heredocBody, h]

theorem heredocBody_of_not_mem (hs : '\n' ∉ s) : heredocBody label false s = (s, []) := by
  induction s with
  | nil => rfl
  | cons c cs ih =>
    rw [List.mem_cons, not_or] at hs
    have hc : (c == '\n') = false := beq_eq_false_iff_ne.2 (Ne.symm hs.1)
    simp [heredocBody, hc, ih hs.2, keep]

theorem heredocBody_line (hs : '\n' ∉ s) :
    heredocBody label false (s ++ '\n' :: t) =
      (s ++ '\n' :: (heredocBody label true t).1, (heredocBody label true t).2) := by
  induction s with
  | nil => simp [heredocBody, keep]
  | cons c cs ih =>
    rw [List.mem_cons, not_or] at hs
    have hc : (c == '\n') = false := beq_eq_false_iff_ne.2 (Ne.symm hs.1)
    simp [heredocBody, hc, ih hs.2, keep]

/-- The line loop comes to an end, after at most as many rounds as the body has lines, and what it gives
is what the lexer cuts. -/
theorem exists_lineRounds (hl : isWord label) (t : Text) :
    ∃ n ≤ t.count '\n' + 1, LineRounds label n t (heredocBody label true t) := by
  induction hn : t.length using Nat.strong_induction_on generalizing t with
  | _ n ih =>
    subst hn
    cases hc : closingLabel? label t with
    | some closed =>
      rw [heredocBody_of_closingLabel? hl hc]
      exact ⟨1, Nat.le_add_left _ _, .close hc⟩
    | none =>
      rw [heredocBody_of_closingLabel?_eq_none hc]
      by_cases hline : '\n' ∈ t
      · obtain ⟨s, rest, rfl, hs⟩ := List.eq_append_cons_of_mem hline
        have hlt : rest.length < (s ++ '\n' :: rest).length := by
          rw [List.length_append, List.length_cons]
          omega
        obtain ⟨m, hm, hrounds⟩ := ih _ hlt rest rfl
        rw [heredocBody_line hs]
        refine ⟨m + 1, ?_, .next hc hs hrounds⟩
        rw [List.count_append, List.count_cons_self]
        omega
      · rw [heredocBody_of_not_mem hline]
        exact ⟨1, Nat.le_add_left _ _, .last hc hline⟩

/-- A heredoc ends at its closing label, whatever follows but a longer name. -/
theorem heredocBody_append_of_heredocText (hl : isWord label) (h : HeredocText label u)
    (hv : ∀ c ∈ v.head?, isNameChar c = false) : heredocBody label true (u ++ v) = (u, v) := by
  induction h with
  | close hi =>
    apply heredocBody_of_closingLabel? hl
    rw [List.append_assoc]
    exact closingLabel?_append_label hl hi hv
  | @line s t hs hn h ih =>
    have hnone : closingLabel? label (s ++ '\n' :: (t ++ v)) = none :=
      (closingLabel?_line hl hs _).2 hn
    rw [List.append_assoc, List.cons_append, heredocBody_of_closingLabel?_eq_none hnone,
      heredocBody_line hs, ih]

theorem LineRounds.heredocText (hl : isWord label) (h : LineRounds label n t p) (hp : p.2 ≠ []) :
    HeredocText label p.1 := by
  induction h with
  | close h =>
    obtain ⟨indent, heq, hindent⟩ := exists_indent_of_closingLabel? h
    rw [heq]
    exact .close hindent
  | last => exact absurd rfl hp
  | next h hs _ ih => exact .line hs ((closingLabel?_line hl hs _).1 h) (ih hp)

/-- The body of a heredoc that ends in front of some text is closed. -/
theorem heredocText_of_heredocBody (hl : isWord label) (h : heredocBody label true t = (u, v))
    (hv : v ≠ []) : HeredocText label u := by
  obtain ⟨n, -, hrounds⟩ := exists_lineRounds hl t
  rw [h] at hrounds
  exact hrounds.heredocText hl hv

/-- No name goes on behind a heredoc. -/
theorem heredocBody_boundary {atStart : Bool} (h : heredocBody label atStart t = (u, v)) :
    ∀ c ∈ v.head?, isNameChar c = false := by
  induction t generalizing atStart u with
  | nil =>
    cases h
    simp
  | cons c cs ih =>
    unfold heredocBody at h
    split at h
    · next closed hclosed =>
      split at hclosed
      · rw [h] at hclosed
        exact closingLabel?_boundary hclosed
      · contradiction
    · obtain ⟨-, rfl⟩ := Prod.ext_iff.1 h
      exact ih rfl

end Closing

/-! ### Whole heredocs -/

/-- A heredoc ends behind its closing label, whatever follows but a longer name. -/
theorem heredoc?_append_of_heredocText (header : HeredocHeader) (h : HeredocText header.label u)
    (hv : ∀ c ∈ v.head?, isNameChar c = false) :
    heredoc? (header.text ++ u ++ v) = some (header.text ++ u, v) := by
  rw [heredoc?, List.append_assoc, header.heredocOpening?_text, Option.map_some]
  simp only [heredocBody_append_of_heredocText header.isWord_label h hv]

/-- A heredoc that ends in front of some text is closed. -/
theorem exists_heredocText_of_heredoc? (h : heredoc? t = some (u, v)) (hv : v ≠ []) :
    ∃ header : HeredocHeader, ∃ body, HeredocText header.label body ∧ u = header.text ++ body := by
  rw [heredoc?, Option.map_eq_some_iff] at h
  obtain ⟨o, ho, h⟩ := h
  obtain ⟨header, hheader⟩ := exists_header_of_heredocOpening? ho
  rw [hheader] at h
  obtain ⟨rfl, rfl⟩ := Prod.ext_iff.1 h
  exact ⟨header, _, heredocText_of_heredocBody header.isWord_label rfl hv, rfl⟩

theorem fst_ne_nil_of_heredoc? (h : heredoc? t = some (u, v)) : u ≠ [] := by
  rw [heredoc?, Option.map_eq_some_iff] at h
  obtain ⟨o, ho, h⟩ := h
  obtain ⟨header, hheader⟩ := exists_header_of_heredocOpening? ho
  obtain ⟨c, cs, hlabel, -⟩ := header.exists_label_eq
  rw [hheader] at h
  obtain ⟨rfl, -⟩ := Prod.ext_iff.1 h
  simp [HeredocHeader.text, hlabel]

theorem heredoc?_boundary (h : heredoc? t = some (u, v)) : ∀ c ∈ v.head?, isNameChar c = false := by
  rw [heredoc?, Option.map_eq_some_iff] at h
  obtain ⟨o, -, h⟩ := h
  obtain ⟨-, rfl⟩ := Prod.ext_iff.1 h
  exact heredocBody_boundary rfl

end DocPages
