import DocPages.Proofs.Token.Offset
import Mathlib.Algebra.Group.Nat.Even

/-!
# Where strings and heredocs end

A string ends behind its first quote that an even number of backslashes stands before. A heredoc ends
behind the first label that opens a line of its body and that no longer name goes on from. If there is
none, each runs to the end of the source. `CutsFirst` says so without reading the text from left to right,
and it leaves one place where to cut (`CutsFirst.unique`).

Main statements: the lexer cuts strings there (`quotedBody_eq_iff`), and it takes for a heredoc what has
the form of one and cuts it there, after no more rounds than the body has lines (`heredoc?_recognizes`).
-/

namespace DocPages

open Text

/-! ### The first cut -/

/-- The text is cut behind its shortest first part for which `ends` holds, given the text after it, or at
its end if there is none. -/
inductive CutsFirst (ends : Text → Text → Prop) (t : Text) : Text × Text → Prop
  | here {u v} (happend : u ++ v = t) (hends : ends u v)
      (hfirst : ∀ u' v', u' ++ v' = t → ends u' v' → u.length ≤ u'.length) : CutsFirst ends t (u, v)
  | never (hnone : ∀ u v, u ++ v = t → ¬ ends u v) : CutsFirst ends t (t, [])

variable {s t u v : Text}

namespace CutsFirst

variable {ends : Text → Text → Prop} {p p' : Text × Text}

theorem unique (h : CutsFirst ends t p) (h' : CutsFirst ends t p') : p = p' := by
  cases h with
  | @here u v happend hends hfirst =>
    cases h' with
    | @here u' v' happend' hends' hfirst' =>
      have hlength : u.length = u'.length :=
        Nat.le_antisymm (hfirst u' v' happend' hends') (hfirst' u v happend hends)
      obtain ⟨rfl, rfl⟩ := List.append_inj (happend.trans happend'.symm) hlength
      rfl
    | never hnone => exact absurd hends (hnone u v happend)
  | never hnone =>
    cases h' with
    | @here u' v' happend' hends' => exact absurd hends' (hnone u' v' happend')
    | never => rfl

/-- Behind a text that is not cut itself, a text is cut where it is cut without the one before it. -/
theorem append (hends : ∀ u v, u ++ v = s ++ t → (ends u v ↔ ∃ w, u = s ++ w ∧ ends w v))
    (h : CutsFirst ends t p) : CutsFirst ends (s ++ t) (s ++ p.1, p.2) := by
  have hsplit {w v : Text} (happend : s ++ w ++ v = s ++ t) : w ++ v = t := by
    rwa [List.append_assoc, List.append_cancel_left_eq] at happend
  cases h with
  | @here u v happend hcut hfirst =>
    have happend' : s ++ u ++ v = s ++ t := by rw [List.append_assoc, happend]
    refine .here happend' ((hends _ _ happend').2 ⟨u, rfl, hcut⟩) fun u' v' hu' hcut' => ?_
    obtain ⟨w, rfl, hw⟩ := (hends u' v' hu').1 hcut'
    have hle := hfirst w v' (hsplit hu') hw
    simp only [List.length_append]
    omega
  | never hnone =>
    refine .never fun u v hu hcut => ?_
    obtain ⟨w, rfl, hw⟩ := (hends u v hu).1 hcut
    exact hnone w v (hsplit hu) hw

end CutsFirst

/-! ### Strings -/

/-- How many backslashes stand at the end of a text. -/
def backslashesAtEnd (t : Text) : Nat := (t.reverse.takeWhile (· == '\\')).length

/-- The first part ends with the quote `q`, and an even number of backslashes stands before it. -/
def QuoteEnds (q : Char) (u _v : Text) : Prop := ∃ s, u = s ++ [q] ∧ Even (backslashesAtEnd s)

/-- The text with a backslash before each backslash and each quote `q`. -/
def escape (q : Char) (t : Text) : Text := t.flatMap fun c => if c = '\\' ∨ c = q then ['\\', c] else [c]

section Quoted

variable {q c : Char}

theorem backslashesAtEnd_concat_backslash (t : Text) :
    backslashesAtEnd (t ++ ['\\']) = backslashesAtEnd t + 1 := by
  simp [backslashesAtEnd]

theorem backslashesAtEnd_concat (t : Text) (hc : c ≠ '\\') : backslashesAtEnd (t ++ [c]) = 0 := by
  simp [backslashesAtEnd, hc]

/-- An even number of backslashes does not matter for what comes behind. -/
theorem even_backslashesAtEnd_append (hs : Even (backslashesAtEnd s)) (t : Text) :
    Even (backslashesAtEnd (s ++ t)) ↔ Even (backslashesAtEnd t) := by
  induction t using List.reverseRecOn with
  | nil =>
    rw [List.append_nil]
    exact iff_of_true hs Even.zero
  | append_singleton t c ih =>
    rw [← List.append_assoc]
    by_cases hc : c = '\\'
    · rw [hc, backslashesAtEnd_concat_backslash, backslashesAtEnd_concat_backslash, Nat.even_add_one,
        Nat.even_add_one, ih]
    · rw [backslashesAtEnd_concat _ hc, backslashesAtEnd_concat _ hc]

/-- The quotes behind a text with no quote that ends a string and with an even number of backslashes at
its end. -/
theorem quoteEnds_iff_exists (hs : Even (backslashesAtEnd s))
    (hnot : ∀ x, x ++ [q] <+: s → ¬ Even (backslashesAtEnd x)) (h : u ++ v = s ++ t) :
    QuoteEnds q u v ↔ ∃ w, u = s ++ w ∧ QuoteEnds q w v := by
  constructor
  · rintro ⟨x, rfl, hx⟩
    have hu : x ++ [q] <+: s ++ t := ⟨v, h⟩
    rcases List.prefix_or_prefix_of_prefix hu (List.prefix_append s t) with hpre | ⟨w, hw⟩
    · exact absurd hx (hnot x hpre)
    · rcases List.eq_nil_or_concat w with rfl | ⟨w, c, rfl⟩
      · rw [List.append_nil] at hw
        exact absurd hx (hnot x (hw ▸ List.prefix_rfl))
      · rw [List.concat_eq_append, ← List.append_assoc] at hw
        obtain ⟨rfl, hc⟩ := List.append_inj' hw rfl
        rw [← hw, List.append_assoc, hc]
        exact ⟨_, rfl, w, rfl, (even_backslashesAtEnd_append hs w).1 hx⟩
  · rintro ⟨_, rfl, x, rfl, hx⟩
    exact ⟨s ++ x, by rw [List.append_assoc], (even_backslashesAtEnd_append hs x).2 hx⟩

theorem even_backslashesAtEnd_pair (c : Char) : Even (backslashesAtEnd ['\\', c]) := by
  by_cases hc : c = '\\'
  · rw [hc]
    decide
  · rw [← List.singleton_append, backslashesAtEnd_concat _ hc]
    exact Even.zero

/-- Neither is the quote the backslash, nor does it end the string behind it. -/
theorem not_even_of_isPrefix_pair (hq : q ≠ '\\') (h : s ++ [q] <+: ['\\', c]) :
    ¬ Even (backslashesAtEnd s) := by
  cases s with
  | nil => exact absurd (List.cons_prefix_cons.1 h).1 hq
  | cons d s =>
    obtain ⟨rfl, h⟩ := List.cons_prefix_cons.1 h
    have hlength := h.length_le
    obtain rfl : s = [] := by simpa using hlength
    decide

/-- A string is cut behind the first quote that an even number of backslashes stands before. -/
theorem cutsFirst_quotedBody (hq : q ≠ '\\') (t : Text) :
    CutsFirst (QuoteEnds q) t (quotedBody q t) := by
  fun_induction quotedBody q t with
  | case1 c cs ih =>
    exact ih.append (s := ['\\', c]) fun u v h =>
      quoteEnds_iff_exists (even_backslashesAtEnd_pair c) (fun x => not_even_of_isPrefix_pair hq) h
  | case2 cs hnot =>
    refine .here rfl ⟨[], rfl, Even.zero⟩ ?_
    rintro u' v' - ⟨s, rfl, -⟩
    simp
  | case3 c cs hnot hne ih =>
    by_cases hc : c = '\\'
    · -- A backslash that escapes nothing is the last character.
      cases cs with
      | nil =>
        refine .never ?_
        rintro u v h ⟨s, rfl, -⟩
        have hmem : q ∈ [c] := h ▸ List.mem_append_left v (List.mem_append_right s List.mem_cons_self)
        exact hne (List.mem_singleton.1 hmem).symm
      | cons d ds => exact absurd rfl (hnot d ds hc)
    · refine ih.append (s := [c]) fun u v h => quoteEnds_iff_exists ?_ (fun x hx _ => ?_) h
      · rw [← List.nil_append [c], backslashesAtEnd_concat _ hc]
        exact Even.zero
      · have hmem : q ∈ [c] := hx.subset (List.mem_append_right x List.mem_cons_self)
        exact hne (List.mem_singleton.1 hmem).symm
  | case4 =>
    refine .never ?_
    rintro u v h ⟨s, rfl, -⟩
    simp at h

theorem quotedText_escape (q : Char) (t : Text) : QuotedText q (escape q t) := by
  induction t with
  | nil => exact .nil
  | cons c cs ih =>
    rw [escape, List.flatMap_cons]
    split
    · exact .escape ih
    · next hc =>
      rw [not_or] at hc
      exact .plain hc.2 hc.1 ih

/-- A string ends behind the first quote that an even number of backslashes stands before, or with the
source, and the length of that part is what the lexer adds up character by character. So the string of a
text in which each backslash and each quote is escaped ends where the text does, whatever follows. -/
theorem quotedBody_eq_iff (hq : q ≠ '\\') :
    (∀ t p, quotedBody q t = p ↔ CutsFirst (QuoteEnds q) t p) ∧
      (∀ t, cutAt? (quotedLength q false t) t = some (quotedBody q t)) ∧
      ∀ t rest, quotedBody q (escape q t ++ q :: rest) = (escape q t ++ [q], rest) := by
  refine ⟨fun t p => ?_, cutAt?_quotedLength q, fun t rest => ?_⟩
  · have hcut := cutsFirst_quotedBody hq t
    exact ⟨fun h => h ▸ hcut, fun h => hcut.unique h⟩
  · exact quotedBody_append_of_quotedText hq (quotedText_escape q t) rest

/-- Three backslashes escape a quote, four do not. -/
theorem quotedBody_eq_iff_fourBackslashes :
    '"' ≠ '\\' ∧
      CutsFirst (QuoteEnds '"') "a\\\\\\\"é\\\\\\\\\"; \"b".toList
        ("a\\\\\\\"é\\\\\\\\\"".toList, "; \"b".toList) ∧
      quotedBody '"' (escape '"' "\\\"".toList ++ '"' :: "b".toList) = ("\\\\\\\"\"".toList, ['b']) :=
  ⟨by decide, ((quotedBody_eq_iff (by decide)).1 _ _).1 (by decide),
    (quotedBody_eq_iff (by decide)).2.2 _ _⟩

end Quoted

/-! ### Heredocs -/

/-- The first part ends with the label, which opens a line behind blanks, and the second part does not go
on with a longer name. -/
def LabelEnds (label u v : Text) : Prop :=
  ∃ before indent, u = before ++ (indent ++ label) ∧ (∀ c ∈ before.getLast?, c = '\n') ∧
    (∀ c ∈ indent, isIndent c) ∧ ∀ c ∈ v.head?, isNameChar c = false

/-- The text opens a heredoc: blanks, the label, alone or between two quotes, and a line break before the
body. The label is all name characters that there are, at least one, and the first one is no digit. -/
def OpensHeredoc (t label body : Text) : Prop :=
  ∃ indent quote newline, t = indent ++ quote ++ label ++ (quote ++ newline ++ body) ∧
    (∀ c ∈ indent, isIndent c) ∧ (quote = [] ∨ quote = ['\''] ∨ quote = ['"']) ∧
    label ≠ [] ∧ (∀ c ∈ label, isNameChar c) ∧
    (∀ c ∈ (quote ++ newline ++ body).head?, isNameChar c = false) ∧
    (∀ c ∈ label.head?, c.isDigit = false) ∧ (newline = ['\n'] ∨ newline = ['\r', '\n'])

section Heredoc

variable {label indent body : Text} {n : Nat} {p : Text × Text}

/-! #### The opening line -/

/-- A word, by its characters. -/
theorem isWord_iff : isWord label ↔
    label ≠ [] ∧ (∀ c ∈ label, isNameChar c) ∧ ∀ c ∈ label.head?, c.isDigit = false := by
  cases label with
  | nil => simp [isWord]
  | cons c cs =>
    by_cases hc : isNameChar c
    · simp [isWord, hc, isNameStart_iff hc, and_comm]
    · have hstart : ¬ isNameStart c := fun h => hc (by rw [isNameChar, h, Bool.true_or])
      simp [isWord, hc, hstart]

theorem opensHeredoc_iff : OpensHeredoc t label body ↔
    ∃ header : HeredocHeader, header.label = label ∧ t = header.text ++ body := by
  constructor
  · rintro ⟨indent, quote, newline, rfl, hindent, hquote, hne, hname, -, hdigit, hnewline⟩
    refine ⟨⟨indent, quote, label, newline, hindent, hquote, isWord_iff.2 ⟨hne, hname, hdigit⟩, hnewline⟩,
      rfl, ?_⟩
    simp only [HeredocHeader.text, List.append_assoc]
  · rintro ⟨header, rfl, rfl⟩
    obtain ⟨hne, hname, hdigit⟩ := isWord_iff.1 header.isWord_label
    refine ⟨header.indent, header.quote, header.newline, ?_, header.isIndent_of_mem, header.quote_eq, hne,
      hname, header.isNameChar_head?_quote body, hdigit, header.newline_eq⟩
    simp only [HeredocHeader.text, List.append_assoc]

theorem isSome_heredoc?_iff : (heredoc? t).isSome ↔ ∃ label body, OpensHeredoc t label body := by
  rw [heredoc?, Option.isSome_map, Option.isSome_iff_exists]
  constructor
  · rintro ⟨o, ho⟩
    obtain ⟨header, hheader⟩ := exists_header_of_heredocOpening? ho
    have happend := heredocOpening?_append ho
    rw [hheader] at happend
    exact ⟨header.label, o.body, opensHeredoc_iff.2 ⟨header, rfl, happend.symm⟩⟩
  · rintro ⟨label, body, h⟩
    obtain ⟨header, rfl, rfl⟩ := opensHeredoc_iff.1 h
    exact ⟨_, header.heredocOpening?_text body⟩

/-! #### The lines of the body -/

theorem labelEnds_of_closingLabel? (h : closingLabel? label t = some (u, v)) : LabelEnds label u v := by
  obtain ⟨indent, rfl, hi⟩ := exists_indent_of_closingLabel? h
  exact ⟨[], indent, rfl, by simp, hi, closingLabel?_boundary h⟩

/-- A label in the first line closes the heredoc. -/
theorem LabelEnds.closingLabel?_eq (hl : isWord label) (h : LabelEnds label u v) (hu : '\n' ∉ u) :
    closingLabel? label (u ++ v) = some (u, v) := by
  obtain ⟨before, indent, rfl, hbefore, hi, hv⟩ := h
  rcases List.eq_nil_or_concat before with rfl | ⟨before, c, rfl⟩
  · rw [List.nil_append, List.append_assoc]
    exact closingLabel?_append_label hl hi hv
  · obtain rfl := hbefore c (by simp)
    simp at hu

/-- The labels behind a line that does not close the heredoc. -/
theorem labelEnds_iff_exists (hl : isWord label) (hs : '\n' ∉ s)
    (hnone : closingLabel? label (s ++ '\n' :: t) = none) (h : u ++ v = s ++ ['\n'] ++ t) :
    LabelEnds label u v ↔ ∃ w, u = s ++ ['\n'] ++ w ∧ LabelEnds label w v := by
  constructor
  · intro hends
    have hu : '\n' ∈ u := by
      by_contra hu
      have hclose := hends.closingLabel?_eq hl hu
      rw [h, List.append_assoc, List.singleton_append, hnone] at hclose
      contradiction
    obtain ⟨before, indent, rfl, hbefore, hi, hv⟩ := hends
    have hbreak : '\n' ∈ before :=
      (List.mem_append.1 hu).resolve_right (not_mem_indent_append_label hl hi)
    have hpre : s ++ ['\n'] <+: before := by
      have hb : before <+: s ++ ['\n'] ++ t := ⟨indent ++ label ++ v, by rw [← h, List.append_assoc before]⟩
      rcases List.prefix_or_prefix_of_prefix hb (List.prefix_append _ t) with hpre | hpre
      · rcases List.prefix_concat_iff.1 hpre with heq | hpre
        · exact heq ▸ List.prefix_rfl
        · exact absurd (hpre.subset hbreak) hs
      · exact hpre
    obtain ⟨w, rfl⟩ := hpre
    refine ⟨w ++ (indent ++ label), List.append_assoc _ _ _, w, indent, rfl, fun c hc => ?_, hi, hv⟩
    apply hbefore c
    rw [Option.mem_def] at hc ⊢
    rw [List.getLast?_append, hc, Option.some_or]
  · rintro ⟨_, rfl, before, indent, rfl, hbefore, hi, hv⟩
    refine ⟨s ++ ['\n'] ++ before, indent, (List.append_assoc _ _ _).symm, fun c hc => ?_, hi, hv⟩
    rw [Option.mem_def, List.getLast?_append, Option.or_eq_some_iff] at hc
    rcases hc with hc | ⟨-, hc⟩
    · exact hbefore c hc
    · simpa using hc.symm

/-- The line loop ends at the first label that stands alone at the start of a line. -/
theorem LineRounds.cutsFirst (hl : isWord label) (h : LineRounds label n t p) :
    CutsFirst (LabelEnds label) t p := by
  induction h with
  | @close t p h =>
    obtain ⟨u, v⟩ := p
    refine .here (closingLabel?_append h) (labelEnds_of_closingLabel? h) fun u' v' h' hends => ?_
    by_cases hu' : '\n' ∈ u'
    · -- This label stands in a later line.
      obtain ⟨indent, rfl, hi⟩ := exists_indent_of_closingLabel? h
      have hnot := not_mem_indent_append_label hl hi
      rcases List.prefix_or_prefix_of_prefix ⟨v, closingLabel?_append h⟩ ⟨v', h'⟩ with hpre | hpre
      · exact hpre.length_le
      · exact absurd (hpre.subset hu') hnot
    · have hclose := hends.closingLabel?_eq hl hu'
      rw [h', h, Option.some.injEq, Prod.mk.injEq] at hclose
      exact hclose.1 ▸ Nat.le_refl _
  | @last t h ht =>
    refine .never fun u v happend hends => ?_
    have hu : '\n' ∉ u := fun hm => ht (happend ▸ List.mem_append_left v hm)
    have hclose := hends.closingLabel?_eq hl hu
    rw [happend, h] at hclose
    contradiction
  | @next n s t p h hs _ ih =>
    have hends (u v : Text) (happend : u ++ v = s ++ ['\n'] ++ t) :
        LabelEnds label u v ↔ ∃ w, u = s ++ ['\n'] ++ w ∧ LabelEnds label w v :=
      labelEnds_iff_exists hl hs h happend
    have hcut := ih.append hends
    rwa [List.append_assoc, List.append_assoc, List.singleton_append, List.singleton_append] at hcut

/-- A text is taken for a heredoc exactly if it opens one, and the length of the heredoc is what the offsets
of its parts add up to. It ends behind the first label that opens a line of the body and that no longer
name goes on from, or with the source, and the lines up to there are read in at most as many rounds as the
body has lines. -/
theorem heredoc?_recognizes (t : Text) :
    ((heredoc? t).isSome ↔ ∃ label body, OpensHeredoc t label body) ∧
      heredocLength? t = some ((heredoc? t).map fun split => byteSize split.1) ∧
      ∀ label body, OpensHeredoc t label body →
        ∃ opening used rest, t = opening ++ body ∧ heredoc? t = some (opening ++ used, rest) ∧
          CutsFirst (LabelEnds label) body (used, rest) ∧
          ∃ n ≤ body.count '\n' + 1, LineRounds label n body (used, rest) := by
  refine ⟨isSome_heredoc?_iff, heredocLength?_eq t, fun label body h => ?_⟩
  obtain ⟨header, rfl, rfl⟩ := opensHeredoc_iff.1 h
  obtain ⟨n, hn, hrounds⟩ := exists_lineRounds header.isWord_label body
  refine ⟨header.text, _, _, rfl, ?_, hrounds.cutsFirst header.isWord_label, n, hn, hrounds⟩
  rw [heredoc?, header.heredocOpening?_text, Option.map_some]

/-- Lines that nearly close a heredoc with the label `EOT`, and one that does. -/
def nearMisses : Text := "EOTX\n x EOT\n\tEOT;\n".toList

theorem heredoc?_recognizes_nearMisses :
    OpensHeredoc (" \"EOT\"\r\n".toList ++ nearMisses) "EOT".toList nearMisses ∧
      CutsFirst (LabelEnds "EOT".toList) nearMisses ("EOTX\n x EOT\n\tEOT".toList, ";\n".toList) := by
  have hopens : OpensHeredoc (" \"EOT\"\r\n".toList ++ nearMisses) "EOT".toList nearMisses :=
    ⟨[' '], ['"'], ['\r', '\n'], rfl, List.all_eq_true.1 rfl, by decide, by decide,
      List.all_eq_true.1 rfl, fun _ h => Option.some.inj h ▸ rfl, fun _ h => Option.some.inj h ▸ rfl,
      by decide⟩
  obtain ⟨opening, used, rest, hopening, hresult, hcut, -⟩ := (heredoc?_recognizes _).2.2 _ _ hopens
  have hresult' : heredoc? (" \"EOT\"\r\n".toList ++ nearMisses) =
      some (" \"EOT\"\r\n".toList ++ "EOTX\n x EOT\n\tEOT".toList, ";\n".toList) := by decide
  obtain rfl := List.append_cancel_right hopening
  rw [hresult', Option.some.injEq, Prod.mk.injEq, List.append_cancel_left_eq] at hresult
  obtain ⟨rfl, rfl⟩ := hresult
  exact ⟨hopens, hcut⟩

end Heredoc

end DocPages
