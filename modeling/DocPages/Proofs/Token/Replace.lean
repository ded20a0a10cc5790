import DocPages.Proofs.Token.Lookahead
import Mathlib.Data.List.DropRight

/-!
# Replacing an enclosed text

`CutBefore rest p ls` says that in front of `rest` the text `p` is cut into `ls`. An enclosed text is
one lexeme, and two of them with the same enclosure (`Enclosed`) open with the same character, so the
lexemes in front of them are the same. The one place to look at is the opening mark of a heredoc
without a label line: whether a label line follows it may depend on more than one character, and a
quoted string could be the label (`heredocOpening?_eq_none_of_cutBefore`).

Main statement: where a lexeme of a source is an enclosed text, another text enclosed in the same way
may stand in its place, and all other lexemes stay as they are (`lexemes_replace`).
-/

namespace DocPages

open Text

/-! ### Enclosures -/

/-- The ways to enclose arbitrary text. -/
inductive Enclosure where
  | comment
  | quoted (q : Char)
  | heredoc
  deriving DecidableEq, Repr

namespace Enclosure

/-- The character that opens an enclosed text. -/
def opening : Enclosure → Char
  | comment => '/'
  | quoted q => q
  | heredoc => '<'

def kind : Enclosure → TokenKind
  | comment => .comment
  | quoted _ => .literal
  | heredoc => .literal

end Enclosure

/-- The enclosed texts: closed block comments that document nothing, closed strings, and closed
heredocs. -/
inductive Enclosed : Enclosure → Text → Prop
  | comment {body} (hb : IsClosed body) (hd : isDocBody body = false) :
      Enclosed .comment ('/' :: '*' :: body)
  | quoted {q inner} (hq : q = '\'' ∨ q = '"') (hi : QuotedText q inner) :
      Enclosed (.quoted q) (q :: (inner ++ [q]))
  | heredoc (header : HeredocHeader) {body} (hb : HeredocText header.label body) :
      Enclosed .heredoc (heredocMark ++ (header.text ++ body))

section Enclosed

variable {e : Enclosure} {u v : Text}

theorem Enclosed.exists_eq_cons (h : Enclosed e u) : ∃ tail, u = e.opening :: tail := by
  cases h with
  | comment => exact ⟨_, rfl⟩
  | quoted => exact ⟨_, rfl⟩
  | heredoc => exact ⟨_, rfl⟩

/-- An enclosed text is one lexeme, unless it is a heredoc and a name goes on behind it. -/
theorem Enclosed.lexemes_append (h : Enclosed e u)
    (hv : e = .heredoc → ∀ c ∈ v.head?, isNameChar c = false) :
    lexemes (u ++ v) = ⟨e.kind, u⟩ :: lexemes v := by
  cases h with
  | @comment body hb hd =>
    rw [List.cons_append, List.cons_append, lexemes_cons, reach_comment,
      commentBody_append_of_isClosed hb]
    simp only [Reach.upTo, commentKind, hd, Enclosure.kind]
    rfl
  | @quoted q inner hq hi =>
    have hne : q ≠ '\\' := by
      rcases hq with rfl | rfl
      · decide
      · decide
    rw [List.cons_append, List.append_assoc, List.singleton_append, lexemes_cons, reach_quote hq,
      quotedBody_append_of_quotedText hne hi]
    rfl
  | @heredoc header body hb =>
    have hbody := heredoc?_append_of_heredocText header hb (hv rfl)
    rw [List.append_assoc, heredocMark, List.cons_append, lexemes_cons]
    rw [List.cons_append, List.cons_append, List.nil_append, reach_heredoc hbody]
    rfl

/-- Where a heredoc is a lexeme, no name goes on behind it. -/
theorem Enclosed.boundary {k : TokenKind} {ms : List Lexeme} (h : Enclosed .heredoc u)
    (hcut : lexemes (u ++ v) = ⟨k, u⟩ :: ms) : ∀ c ∈ v.head?, isNameChar c = false := by
  generalize he : Enclosure.heredoc = e at h
  cases h with
  | comment => contradiction
  | quoted => contradiction
  | @heredoc header body hb =>
    have hopen := header.heredocOpening?_text (body ++ v)
    rw [← List.append_assoc] at hopen
    obtain ⟨split, hsplit⟩ : ∃ split, heredoc? (header.text ++ body ++ v) = some split :=
      ⟨_, by rw [heredoc?, hopen, Option.map_some]⟩
    have hlex : lexemes (heredocMark ++ (header.text ++ body) ++ v) =
        ⟨.literal, heredocMark ++ split.1⟩ :: lexemes split.2 := by
      rw [List.append_assoc, heredocMark, List.cons_append, List.cons_append, List.cons_append,
        List.nil_append, lexemes_cons, reach_heredoc hsplit]
      rfl
    rw [hcut, List.cons.injEq, Lexeme.mk.injEq, List.append_cancel_left_eq] at hlex
    have hrest := heredoc?_append hsplit
    rw [← hlex.1.2, List.append_cancel_left_eq] at hrest
    rw [← hrest]
    exact heredoc?_boundary hsplit

end Enclosed

/-! ### The lexemes in front of a text -/

/-- In front of `rest`, the text `p` is cut into the lexemes `ls`. -/
inductive CutBefore (rest : Text) : Text → List Lexeme → Prop
  | nil : CutBefore rest [] []
  | cons {c tail p k ls} (h : reach c (tail ++ (p ++ rest)) = ⟨k, tail, p ++ rest⟩)
      (hcut : CutBefore rest p ls) : CutBefore rest (c :: (tail ++ p)) (⟨k, c :: tail⟩ :: ls)

section CutBefore

variable {p rest : Text} {ls ms : List Lexeme}

theorem CutBefore.lexemes_eq (h : CutBefore rest p ls) : lexemes (p ++ rest) = ls ++ lexemes rest := by
  induction h with
  | nil => rfl
  | cons h hcut ih => rw [List.cons_append, List.append_assoc, lexemes_cons, h, ih, List.cons_append]

/-- Every row of first lexemes of a source is a cut in front of what is left. -/
theorem exists_cutBefore_of_lexemes {source : Text} (h : lexemes source = ls ++ ms) :
    ∃ p rest, source = p ++ rest ∧ (ls.map Lexeme.text).flatten = p ∧ CutBefore rest p ls ∧
      lexemes rest = ms := by
  induction ls generalizing source with
  | nil => exact ⟨[], source, rfl, rfl, .nil, h⟩
  | cons l ls ih =>
    cases source with
    | nil => simp at h
    | cons c cs =>
      rw [lexemes_cons, List.cons_append, List.cons.injEq] at h
      obtain ⟨rfl, htail⟩ := h
      obtain ⟨p, rest, hrest, hflat, hcut, hms⟩ := ih htail
      have happend := reach_append c cs
      rw [hrest] at happend
      refine ⟨c :: ((reach c cs).tail ++ p), rest, ?_, ?_, .cons ?_ hcut, hms⟩
      · rw [List.cons_append, List.append_assoc, happend]
      · rw [List.map_cons, List.flatten_cons, hflat]
        rfl
      · rw [happend, ← hrest]

end CutBefore

/-! ### A label line behind an opening mark -/

namespace HeredocHeader

variable (h : HeredocHeader) {q : Char} {p a : Text}

theorem not_mem_text {c : Char} (hc : c = '/' ∨ c = '<') : c ∉ h.text := by
  have hindent : c ∉ h.indent := fun hm => by
    have := h.isIndent_of_mem c hm
    rcases hc with rfl | rfl <;> exact absurd this (by decide)
  have hlabel : c ∉ h.label := fun hm => by
    have := isNameChar_of_mem h.isWord_label hm
    rcases hc with rfl | rfl <;> exact absurd this (by decide)
  have hquote : c ∉ h.quote := by
    rcases h.quote_eq with hq | hq | hq <;> rcases hc with rfl | rfl <;> rw [hq] <;> decide
  have hnewline : c ∉ h.newline := by
    rcases h.newline_eq with hn | hn <;> rcases hc with rfl | rfl <;> rw [hn] <;> decide
  simp only [text, List.mem_append, not_or]
  exact ⟨⟨⟨⟨hindent, hquote⟩, hlabel⟩, hquote⟩, hnewline⟩

/-- A quote in a header stands in front of the label or behind it. -/
theorem eq_of_text_eq (hq : q = '\'' ∨ q = '"') (heq : h.text = p ++ q :: a) :
    p = h.indent ∨ p = h.indent ++ q :: h.label := by
  have hindent : q ∉ h.indent := fun hm => by
    have := h.isIndent_of_mem q hm
    rcases hq with rfl | rfl <;> exact absurd this (by decide)
  have hlabel : q ∉ h.label := fun hm => by
    have := isNameChar_of_mem h.isWord_label hm
    rcases hq with rfl | rfl <;> exact absurd this (by decide)
  have hnewline : q ∉ h.newline := by
    rcases h.newline_eq with hn | hn <;> rcases hq with rfl | rfl <;> rw [hn] <;> decide
  have hquote : h.quote = [q] := by
    have hmem : q ∈ h.text := by
      rw [heq]
      exact List.mem_append_right _ List.mem_cons_self
    simp only [text, List.mem_append, hindent, hlabel, hnewline, false_or, or_false] at hmem
    rcases h.quote_eq with hq' | hq' | hq' <;> rw [hq'] at hmem ⊢ <;> simp_all
  have htext : h.text = h.indent ++ q :: (h.label ++ q :: h.newline) := by
    simp only [text, hquote, List.append_assoc, List.cons_append, List.nil_append]
  rw [htext] at heq
  by_cases hp : q ∈ p
  · right
    obtain ⟨x, y, rfl, hx⟩ := List.eq_append_cons_of_mem hp
    rw [List.append_assoc, List.cons_append] at heq
    obtain ⟨rfl, hrest⟩ := cut_inj hindent hx heq
    by_cases hy : q ∈ y
    · obtain ⟨z, w, rfl, hz⟩ := List.eq_append_cons_of_mem hy
      rw [List.append_assoc, List.cons_append] at hrest
      have hnl := (cut_inj hlabel hz hrest).2
      rw [hnl] at hnewline
      exact absurd (List.mem_append_right _ List.mem_cons_self) hnewline
    · rw [(cut_inj hlabel hy hrest).1]
  · exact Or.inl (cut_inj hindent hp heq).1.symm

end HeredocHeader

section Replace

variable {e : Enclosure} {c₁ c₂ p s : Text} {ls : List Lexeme}

/-- No cut goes between the inside of a string and the quote behind it. -/
theorem not_cutBefore_of_quotedText {q : Char} {inner rest : Text} (hq : q = '\'' ∨ q = '"')
    (hinner : QuotedText q inner) : ¬ CutBefore (q :: rest) (q :: inner) ls := by
  have hne : q ≠ '\\' := by
    rcases hq with rfl | rfl
    · decide
    · decide
  generalize hp : q :: inner = p
  intro hcut
  cases hcut with
  | nil => contradiction
  | @cons c tail p k ls h hcut =>
    obtain ⟨rfl, rfl⟩ := List.cons.inj hp
    rw [← List.append_assoc, reach_quote hq, quotedBody_append_of_quotedText hne hinner] at h
    have htail := congrArg (fun r => r.tail.length) h
    simp [Reach.upTo] at htail

theorem isGap_of_isIndent {c : Char} (h : isIndent c) : isGap c := by
  simp only [isIndent, Bool.or_eq_true, beq_iff_eq] at h
  rcases h with rfl | rfl
  · rfl
  · rfl

/-- No cut goes between a quoted label and the quote behind it. -/
theorem not_cutBefore_of_label {q : Char} {indent label rest : Text} (hq : q = '\'' ∨ q = '"')
    (hl : isWord label) (hi : ∀ c ∈ indent, isIndent c) :
    ¬ CutBefore (q :: rest) (indent ++ q :: label) ls := by
  have hlabel : QuotedText q label := by
    apply quotedText_of_not_mem
    · intro hm
      have := isNameChar_of_mem hl hm
      rcases hq with rfl | rfl <;> exact absurd this (by decide)
    · intro hm
      exact absurd (isNameChar_of_mem hl hm) (by decide)
  cases indent with
  | nil => exact not_cutBefore_of_quotedText hq hlabel
  | cons i indent =>
    generalize hp : i :: indent ++ q :: label = p
    intro hcut
    cases hcut with
    | nil => contradiction
    | @cons c tail p k ls h hcut =>
      -- The blanks are one lexeme, so the next one begins with the quote.
      rw [List.cons_append] at hp
      obtain ⟨rfl, htail⟩ := List.cons.inj hp
      have hgap : ∀ d ∈ i :: indent, isGap d := fun d hd => isGap_of_isIndent (hi d hd)
      have hboundary : ∀ d ∈ (q :: (label ++ q :: rest)).head?, isGap d = false := by
        rcases hq with rfl | rfl <;> simp [isGap]
      rw [← List.append_assoc, ← htail, List.append_assoc, List.cons_append,
        reach_of_isGap (hgap i List.mem_cons_self), Reach.while,
        takeWhile_append_of_boundary (fun d hd => hgap d (List.mem_cons_of_mem _ hd)) hboundary] at h
      obtain ⟨-, rfl, -⟩ := Reach.mk.inj h
      rw [List.append_cancel_left_eq] at htail
      rw [← htail] at hcut
      exact not_cutBefore_of_quotedText hq hlabel hcut

/-- The text ends in the opening mark of a heredoc, up to blanks. -/
def EndsInMark (p : Text) : Prop := heredocMark <:+ p.rdropWhile isIndent

theorem endsInMark_iff :
    EndsInMark p ↔ ∃ before indent, p = before ++ (heredocMark ++ indent) ∧
      ∀ c ∈ indent, isIndent c := by
  constructor
  · rintro ⟨before, hbefore⟩
    refine ⟨before, p.rtakeWhile isIndent, ?_, fun c hc => List.mem_rtakeWhile_imp hc⟩
    rw [← List.append_assoc, hbefore, List.rdropWhile_append_rtakeWhile]
  · rintro ⟨before, indent, rfl, hindent⟩
    have hdrop : (before ++ (heredocMark ++ indent)).rdropWhile isIndent = before ++ heredocMark := by
      rw [List.rdropWhile, List.reverse_append, List.reverse_append, List.append_assoc,
        List.dropWhile_append_of_pos fun c hc => hindent c (List.mem_reverse.1 hc)]
      simp [heredocMark, isIndent]
    rw [EndsInMark, hdrop]
    exact List.suffix_append _ _

theorem EndsInMark.append (h : EndsInMark p) (t : Text) : EndsInMark (t ++ p) := by
  rw [endsInMark_iff] at h ⊢
  obtain ⟨before, indent, rfl, hindent⟩ := h
  exact ⟨t ++ before, indent, by rw [List.append_assoc], hindent⟩

theorem endsInMark_append {indent : Text} (hi : ∀ c ∈ indent, isIndent c) :
    EndsInMark (heredocMark ++ indent) :=
  endsInMark_iff.2 ⟨[], indent, rfl, hi⟩

/-- Where no label line follows an opening mark, none follows after the replacement. -/
theorem heredoc?_eq_none_of_cutBefore (h₁ : Enclosed e c₁) (h₂ : Enclosed e c₂)
    (hcut : CutBefore (c₁ ++ s) p ls) (hp : ∀ q, e = .quoted q → ¬ EndsInMark (heredocMark ++ p))
    (h : heredoc? (p ++ (c₁ ++ s)) = none) : heredoc? (p ++ (c₂ ++ s)) = none := by
  rw [heredoc?, Option.map_eq_none_iff] at h ⊢
  rw [Option.eq_none_iff_forall_ne_some]
  intro o ho
  obtain ⟨header, hheader⟩ := exists_header_of_heredocOpening? ho
  have htext := heredocOpening?_append ho
  rw [hheader] at htext
  change header.text ++ o.body = p ++ (c₂ ++ s) at htext
  obtain ⟨u₁, hu₁⟩ := h₁.exists_eq_cons
  obtain ⟨u₂, hu₂⟩ := h₂.exists_eq_cons
  have hfirst {a : Text} (hp : p = header.text ++ a) : False := by
    -- The header ends in front of the enclosed text, so it stands in the other source as well.
    rw [hp, List.append_assoc, header.heredocOpening?_text] at h
    contradiction
  rcases List.append_eq_append_iff.1 htext with ⟨a, ha, -⟩ | ⟨a, hline, ha⟩
  · exact hfirst ha
  · cases a with
    | nil =>
      rw [List.append_nil] at hline
      exact hfirst (a := []) (by rw [List.append_nil, hline])
    | cons d a =>
      rw [hu₂, List.cons_append, List.cons_append, List.cons.injEq] at ha
      rw [← ha.1] at hline
      have hmem : e.opening ∈ header.text := by
        rw [hline]
        exact List.mem_append_right _ List.mem_cons_self
      cases h₂ with
      | comment => exact header.not_mem_text (Or.inl rfl) hmem
      | heredoc => exact header.not_mem_text (Or.inr rfl) hmem
      | @quoted q inner hq hi =>
        rcases header.eq_of_text_eq hq hline with rfl | rfl
        · exact hp q rfl (endsInMark_append header.isIndent_of_mem)
        · rw [hu₁] at hcut
          exact not_cutBefore_of_label hq header.isWord_label header.isIndent_of_mem hcut

theorem CutBefore.replace (h₁ : Enclosed e c₁) (h₂ : Enclosed e c₂)
    (hcut : CutBefore (c₁ ++ s) p ls) (hp : ∀ q, e = .quoted q → ¬ EndsInMark p) :
    CutBefore (c₂ ++ s) p ls := by
  obtain ⟨u₁, hu₁⟩ := h₁.exists_eq_cons
  obtain ⟨u₂, hu₂⟩ := h₂.exists_eq_cons
  induction hcut with
  | nil => exact .nil
  | @cons c tail p k ls h hcut ih =>
    have hp' : ∀ q, e = .quoted q → ¬ EndsInMark p := fun q hq hm =>
      hp q hq (hm.append (c :: tail))
    refine .cons ?_ (ih hp')
    -- What is left opens with the same character in both sources.
    obtain ⟨d, r, r', hd, hd'⟩ : ∃ d r r', p ++ (c₁ ++ s) = d :: r ∧ p ++ (c₂ ++ s) = d :: r' := by
      cases p with
      | nil => exact ⟨e.opening, _, _, by rw [hu₁]; rfl, by rw [hu₂]; rfl⟩
      | cons d p => exact ⟨d, _, _, rfl, rfl⟩
    rw [hd] at h
    rw [hd']
    refine reach_congr h fun hmark => ?_
    obtain ⟨rfl, rfl⟩ := List.cons.inj hmark
    rw [← hd']
    refine heredoc?_eq_none_of_cutBefore h₁ h₂ hcut (fun q hq => ?_) ?_
    · exact hp q hq
    · rw [hd]
      exact heredoc?_eq_none_of_reach h

/-- Where a lexeme of a source is an enclosed text, another one enclosed in the same way may stand in
its place: all other lexemes stay as they are. -/
theorem lexemes_replace {k : TokenKind} {ms : List Lexeme} (h₁ : Enclosed e c₁) (h₂ : Enclosed e c₂)
    (hlex : lexemes (p ++ (c₁ ++ s)) = ls ++ ⟨k, c₁⟩ :: ms) (hls : (ls.map Lexeme.text).flatten = p)
    (hp : ∀ q, e = .quoted q → ¬ EndsInMark p) :
    lexemes (p ++ (c₁ ++ s)) = ls ++ ⟨e.kind, c₁⟩ :: lexemes s ∧
      lexemes (p ++ (c₂ ++ s)) = ls ++ ⟨e.kind, c₂⟩ :: lexemes s := by
  obtain ⟨p', rest, hsource, hp', hcut, hrest⟩ := exists_cutBefore_of_lexemes hlex
  rw [hls] at hp'
  subst hp'
  rw [List.append_cancel_left_eq] at hsource
  subst hsource
  have hs : e = .heredoc → ∀ c ∈ s.head?, isNameChar c = false := by
    rintro rfl
    exact h₁.boundary hrest
  constructor
  · rw [hcut.lexemes_eq, h₁.lexemes_append hs]
  · rw [(hcut.replace h₁ h₂ hp).lexemes_eq, h₂.lexemes_append hs]

end Replace

end DocPages
