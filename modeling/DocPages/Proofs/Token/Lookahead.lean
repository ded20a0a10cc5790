import DocPages.Proofs.Token.Enclosed

/-!
# What a lexeme depends on

The lexer reads a lexeme without knowing where it ends, so a lexeme may depend on what follows it.
For each kind of lexeme an equation says what the lexer reads (`reach_hash`, `reach_variable`), and a
lemma says from it that the same is read in front of other text. The marks that a longer lexeme may
start with (`OpenMark`) have both in common.

Main statement: in front of some text a lexeme depends on the next character alone (`reach_congr`),
with one exception: the opening mark of a heredoc is a lexeme of its own when no label line follows it.
-/

namespace DocPages

open Text

variable {c d : Char} {k : TokenKind} {tail r r' : Text}

/-! ### The rules, by the character that opens a lexeme -/

section Rules

variable {cs : Text}

theorem reach_lineComment (cs : Text) :
    reach '/' ('/' :: cs) = .while .comment isInLine ('/' :: cs) := rfl

theorem reach_attribute (cs : Text) : reach '#' ('[' :: cs) = ⟨.other, ['['], cs⟩ := rfl

theorem reach_hash (h : cs.head? ≠ some '[') : reach '#' cs = .while .comment isInLine cs := by
  cases cs <;> simp_all [reach, isNameStart, isGap]

theorem reach_quote {q : Char} (hq : q = '\'' ∨ q = '"') (cs : Text) :
    reach q cs = .upTo .literal [] (quotedBody q cs) := by
  rcases hq with rfl | rfl <;> rfl

theorem reach_dollar (d : Char) (cs : Text) :
    reach '$' (d :: cs) =
      if isNameStart d then .while .variable isNameChar (d :: cs) else ⟨.other, [], d :: cs⟩ := rfl

theorem reach_variable (h : ∃ e ∈ cs.head?, isNameStart e) :
    reach '$' cs = .while .variable isNameChar cs := by
  obtain ⟨e, he, hstart⟩ := h
  obtain ⟨rest, rfl⟩ := List.head?_eq_some_iff.1 he
  rw [reach_dollar, if_pos hstart]

/-- The opening mark of a heredoc. -/
def heredocMark : Text := ['<', '<', '<']

theorem reach_threeLess (cs : Text) :
    reach '<' ('<' :: '<' :: cs) =
      match heredoc? cs with
      | some split => .upTo .literal ['<', '<'] split
      | none => ⟨.other, ['<', '<'], cs⟩ := rfl

theorem reach_heredoc {split : Text × Text} (h : heredoc? cs = some split) :
    reach '<' ('<' :: '<' :: cs) = .upTo .literal ['<', '<'] split := by
  rw [reach_threeLess, h]

theorem reach_heredocMark (h : heredoc? cs = none) :
    reach '<' ('<' :: '<' :: cs) = ⟨.other, ['<', '<'], cs⟩ := by
  rw [reach_threeLess, h]

theorem reach_doubleColon (cs : Text) : reach ':' (':' :: cs) = ⟨.memberAccess, [':'], cs⟩ := rfl

theorem reach_arrow (cs : Text) : reach '-' ('>' :: cs) = ⟨.memberAccess, ['>'], cs⟩ := rfl

theorem reach_nullArrow (cs : Text) :
    reach '?' ('-' :: '>' :: cs) = ⟨.memberAccess, ['-', '>'], cs⟩ := rfl

/-- The marks that a longer lexeme may start with, as the first character and the others, with the
characters that make the lexeme longer. -/
inductive OpenMark : Char → Text → (Char → Bool) → Prop
  | slash : OpenMark '/' [] fun e => e == '*' || e == '/'
  | dollar : OpenMark '$' [] isNameStart
  | less : OpenMark '<' [] (· == '<')
  | shift : OpenMark '<' ['<'] (· == '<')
  | colon : OpenMark ':' [] (· == ':')
  | minus : OpenMark '-' [] (· == '>')
  | question : OpenMark '?' [] (· == '-')
  | questionMinus : OpenMark '?' ['-'] (· == '>')

/-- Such a mark is a lexeme where the next character does not make it longer. -/
theorem reach_openMark {mark : Text} {next : Char → Bool} (hm : OpenMark c mark next)
    (h : ∀ e ∈ cs.head?, next e = false) : reach c (mark ++ cs) = ⟨.other, mark, cs⟩ := by
  cases hm with
  | dollar =>
    cases cs with
    | nil => rfl
    | cons e cs => simp [reach_dollar, h e rfl]
  | _ => cases cs <;> simp_all [reach, isNameStart, isGap]

/-- The characters that may open a lexeme of more characters than themselves, names and gaps apart. -/
def openers : List Char := ['/', '#', '\'', '"', '<', '$', ':', '-', '?']

/-- All other characters are lexemes of their own. -/
theorem exists_reach_eq (hc : ¬ isNameStart c) (hg : ¬ isGap c) (ho : c ∉ openers) :
    ∃ kind, ∀ cs, reach c cs = ⟨kind, [], cs⟩ := by
  by_cases hb : c = '\\'
  · exact ⟨.namespaceSeparator, fun cs => by rw [hb]; rfl⟩
  by_cases hs : c = ';'
  · exact ⟨.semicolon, fun cs => by rw [hs]; rfl⟩
  by_cases hbrace : c = '\x7b'
  · exact ⟨.openBrace, fun cs => by rw [hbrace]; rfl⟩
  refine ⟨.other, fun cs => ?_⟩
  unfold reach
  rw [if_neg hc, if_neg hg]
  split <;> simp_all [openers]

/-- Where the opening mark is a lexeme of its own, no label line follows it. -/
theorem heredoc?_eq_none_of_reach (h : reach '<' ('<' :: '<' :: cs) = ⟨k, ['<', '<'], cs⟩) :
    heredoc? cs = none := by
  cases hsplit : heredoc? cs with
  | none => rfl
  | some split =>
    rw [reach_heredoc hsplit] at h
    have htail : ['<', '<'] ++ split.1 = ['<', '<'] := congrArg Reach.tail h
    exact absurd (List.append_right_eq_self.1 htail) (fst_ne_nil_of_heredoc? hsplit)

end Rules

/-! ### The texts that lexemes run through -/

theorem Reach.while_congr {kind : TokenKind} {p : Char → Bool} {cs : Text}
    (h : Reach.while kind p cs = ⟨k, tail, d :: r⟩) :
    Reach.while kind p (tail ++ d :: r') = ⟨k, tail, d :: r'⟩ := by
  simp only [Reach.while, Reach.mk.injEq] at h
  obtain ⟨rfl, rfl, hdrop⟩ := h
  have hall : ∀ e ∈ cs.takeWhile p, p e := fun e he => List.mem_takeWhile_imp he
  have hd : ∀ e ∈ (d :: r').head?, p e = false := by
    intro e he
    obtain rfl : d = e := Option.some.inj he
    have hnot := List.head?_dropWhile_not p cs
    rw [hdrop] at hnot
    simpa using hnot
  rw [Reach.while, takeWhile_append_of_boundary hall hd, dropWhile_append_of_boundary hall hd]

section Bodies

variable {cs u : Text} {q : Char}

theorem commentBody_congr (r' : Text) (h : commentBody cs = (u, d :: r)) :
    commentBody (u ++ d :: r') = (u, d :: r') :=
  commentBody_append_of_isClosed (isClosed_of_commentBody h (List.cons_ne_nil d r)) _

theorem quotedBody_congr (r' : Text) (hq : q = '\'' ∨ q = '"')
    (h : quotedBody q cs = (u, d :: r)) :
    quotedBody q (u ++ d :: r') = (u, d :: r') := by
  obtain ⟨inner, hinner, rfl⟩ := exists_quotedText_of_quotedBody h (List.cons_ne_nil d r)
  rw [List.append_assoc, List.singleton_append]
  apply quotedBody_append_of_quotedText _ hinner
  rcases hq with rfl | rfl
  · decide
  · decide

theorem heredoc?_congr (h : heredoc? cs = some (u, d :: r)) :
    heredoc? (u ++ d :: r') = some (u, d :: r') := by
  obtain ⟨header, body, hbody, rfl⟩ := exists_heredocText_of_heredoc? h (List.cons_ne_nil d r)
  have hd := heredoc?_boundary h
  exact heredoc?_append_of_heredocText header hbody hd

end Bodies

/-! ### A lexeme in front of other text -/

section Congr

variable {cs : Text}

/-- The first character behind the one that opens a lexeme, when other text follows the lexeme. -/
theorem head?_of_reach (r' : Text) (h : reach c cs = ⟨k, tail, d :: r⟩) :
    (tail ++ d :: r').head? = cs.head? := by
  have happend := reach_append c cs
  rw [h] at happend
  rw [← happend]
  cases tail <;> rfl

theorem reach_word_congr (hc : isNameStart c) (h : reach c cs = ⟨k, tail, d :: r⟩) :
    reach c (tail ++ d :: r') = ⟨k, tail, d :: r'⟩ := by
  rw [reach_of_isNameStart hc] at h ⊢
  have hword : Reach.while (.ofWord (c :: cs.takeWhile isNameChar)) isNameChar
      (tail ++ d :: r') = ⟨k, tail, d :: r'⟩ := Reach.while_congr h
  have htail : cs.takeWhile isNameChar = tail := congrArg Reach.tail h
  have htail' : (tail ++ d :: r').takeWhile isNameChar = tail := congrArg Reach.tail hword
  rw [htail] at hword
  rw [htail', hword]

theorem reach_gap_congr (hg : isGap c) (h : reach c cs = ⟨k, tail, d :: r⟩) :
    reach c (tail ++ d :: r') = ⟨k, tail, d :: r'⟩ := by
  rw [reach_of_isGap hg] at h ⊢
  exact Reach.while_congr h

/-- A mark depends on the character behind it alone if its rule does. -/
theorem reach_mark_congr (mark : Text) {kind : TokenKind}
    (hrule : ∀ rest, rest.head? = cs.head? → reach c (mark ++ rest) = ⟨kind, mark, rest⟩)
    (h : reach c (mark ++ cs) = ⟨k, tail, d :: r⟩) :
    reach c (tail ++ d :: r') = ⟨k, tail, d :: r'⟩ := by
  rw [hrule cs rfl] at h
  obtain ⟨rfl, rfl, rfl⟩ := Reach.mk.inj h
  exact hrule (d :: r') rfl

theorem reach_openMark_congr {mark : Text} {next : Char → Bool} (hm : OpenMark c mark next)
    (hnext : ∀ e ∈ cs.head?, next e = false) (h : reach c (mark ++ cs) = ⟨k, tail, d :: r⟩) :
    reach c (tail ++ d :: r') = ⟨k, tail, d :: r'⟩ :=
  reach_mark_congr mark (fun _ hr => reach_openMark hm (hr ▸ hnext)) h

theorem forall_head?_beq_eq_false {e : Char} (h : cs.head? ≠ some e) :
    ∀ a ∈ cs.head?, (a == e) = false :=
  fun _ ha => beq_eq_false_iff_ne.2 fun hae => h (hae ▸ ha)

/-- A character that opens a mark of two characters with one other, and stands alone otherwise. -/
theorem reach_pair_congr {e : Char} {kind : TokenKind} (hm : OpenMark c [] (· == e))
    (hpair : ∀ rest, reach c (e :: rest) = ⟨kind, [e], rest⟩)
    (h : reach c cs = ⟨k, tail, d :: r⟩) : reach c (tail ++ d :: r') = ⟨k, tail, d :: r'⟩ := by
  by_cases he : cs.head? = some e
  · obtain ⟨rest, rfl⟩ := List.head?_eq_some_iff.1 he
    exact reach_mark_congr [e] (fun rest _ => hpair rest) h
  · exact reach_openMark_congr hm (forall_head?_beq_eq_false he) h

theorem reach_comment_congr (h : reach '/' ('*' :: cs) = ⟨k, tail, d :: r⟩) :
    reach '/' (tail ++ d :: r') = ⟨k, tail, d :: r'⟩ := by
  obtain ⟨rfl, rfl, hrest⟩ := Reach.mk.inj h
  have hbody := commentBody_congr r' (Prod.ext rfl hrest)
  rw [List.append_assoc, List.singleton_append, reach_comment, hbody]
  rfl

theorem reach_lineComment_congr (h : reach '/' ('/' :: cs) = ⟨k, tail, d :: r⟩) :
    reach '/' (tail ++ d :: r') = ⟨k, tail, d :: r'⟩ := by
  -- The line is read from its second slash on, so that slash has to be there again.
  have hhead : (tail ++ d :: r').head? = some '/' := head?_of_reach r' h
  obtain ⟨rest, hrest⟩ := List.head?_eq_some_iff.1 hhead
  rw [reach_lineComment] at h
  have hline : Reach.while .comment isInLine (tail ++ d :: r') = ⟨k, tail, d :: r'⟩ :=
    Reach.while_congr h
  rw [hrest] at hline ⊢
  rw [reach_lineComment, hline]

theorem reach_slash_congr (h : reach '/' cs = ⟨k, tail, d :: r⟩) :
    reach '/' (tail ++ d :: r') = ⟨k, tail, d :: r'⟩ := by
  by_cases hstar : cs.head? = some '*'
  · obtain ⟨rest, rfl⟩ := List.head?_eq_some_iff.1 hstar
    exact reach_comment_congr h
  by_cases hslash : cs.head? = some '/'
  · obtain ⟨rest, rfl⟩ := List.head?_eq_some_iff.1 hslash
    exact reach_lineComment_congr h
  · have hnext : ∀ e ∈ cs.head?, (e == '*' || e == '/') = false := fun e he =>
      Bool.or_eq_false_iff.2
        ⟨forall_head?_beq_eq_false hstar e he, forall_head?_beq_eq_false hslash e he⟩
    exact reach_openMark_congr .slash hnext h

theorem reach_hash_congr (h : reach '#' cs = ⟨k, tail, d :: r⟩) :
    reach '#' (tail ++ d :: r') = ⟨k, tail, d :: r'⟩ := by
  by_cases hb : cs.head? = some '['
  · obtain ⟨rest, rfl⟩ := List.head?_eq_some_iff.1 hb
    exact reach_mark_congr ['['] (fun rest _ => reach_attribute rest) h
  · have hb' : (tail ++ d :: r').head? ≠ some '[' := by rwa [head?_of_reach r' h]
    rw [reach_hash hb] at h
    rw [reach_hash hb', Reach.while_congr h]

theorem reach_quote_congr (hq : c = '\'' ∨ c = '"') (h : reach c cs = ⟨k, tail, d :: r⟩) :
    reach c (tail ++ d :: r') = ⟨k, tail, d :: r'⟩ := by
  rw [reach_quote hq] at h
  obtain ⟨rfl, htail, hrest⟩ := Reach.mk.inj h
  have hbody := quotedBody_congr r' hq (Prod.ext htail hrest)
  rw [reach_quote hq, hbody]
  rfl

theorem reach_dollar_congr (h : reach '$' cs = ⟨k, tail, d :: r⟩) :
    reach '$' (tail ++ d :: r') = ⟨k, tail, d :: r'⟩ := by
  by_cases hname : ∃ e ∈ cs.head?, isNameStart e
  · have hname' : ∃ e ∈ (tail ++ d :: r').head?, isNameStart e := by rwa [head?_of_reach r' h]
    rw [reach_variable hname] at h
    rw [reach_variable hname', Reach.while_congr h]
  · have hnext : ∀ e ∈ cs.head?, isNameStart e = false := by simpa using hname
    exact reach_openMark_congr .dollar hnext h

theorem reach_heredoc_congr (h : reach '<' ('<' :: '<' :: cs) = ⟨k, tail, d :: r⟩)
    (hmark : tail = ['<', '<'] → heredoc? (d :: r') = none) :
    reach '<' (tail ++ d :: r') = ⟨k, tail, d :: r'⟩ := by
  cases hsplit : heredoc? cs with
  | some split =>
    rw [reach_heredoc hsplit] at h
    obtain ⟨rfl, rfl, hrest⟩ := Reach.mk.inj h
    have hbody : heredoc? cs = some (split.1, d :: r) :=
      hsplit.trans (congrArg some (Prod.ext rfl hrest))
    rw [List.append_assoc]
    exact reach_heredoc (heredoc?_congr hbody)
  | none =>
    rw [reach_heredocMark hsplit] at h
    obtain ⟨rfl, rfl, rfl⟩ := Reach.mk.inj h
    exact reach_heredocMark (hmark rfl)

theorem reach_less_congr (h : reach '<' cs = ⟨k, tail, d :: r⟩)
    (hmark : tail = ['<', '<'] → heredoc? (d :: r') = none) :
    reach '<' (tail ++ d :: r') = ⟨k, tail, d :: r'⟩ := by
  by_cases hsecond : cs.head? = some '<'
  · obtain ⟨rest, rfl⟩ := List.head?_eq_some_iff.1 hsecond
    by_cases hthird : rest.head? = some '<'
    · obtain ⟨rest, rfl⟩ := List.head?_eq_some_iff.1 hthird
      exact reach_heredoc_congr h hmark
    · exact reach_openMark_congr .shift (forall_head?_beq_eq_false hthird) h
  · exact reach_openMark_congr .less (forall_head?_beq_eq_false hsecond) h

theorem reach_question_congr (h : reach '?' cs = ⟨k, tail, d :: r⟩) :
    reach '?' (tail ++ d :: r') = ⟨k, tail, d :: r'⟩ := by
  by_cases hminus : cs.head? = some '-'
  · obtain ⟨rest, rfl⟩ := List.head?_eq_some_iff.1 hminus
    by_cases hgreater : rest.head? = some '>'
    · obtain ⟨rest, rfl⟩ := List.head?_eq_some_iff.1 hgreater
      exact reach_mark_congr ['-', '>'] (fun rest _ => reach_nullArrow rest) h
    · exact reach_openMark_congr .questionMinus (forall_head?_beq_eq_false hgreater) h
  · exact reach_openMark_congr .question (forall_head?_beq_eq_false hminus) h

end Congr

/-- A lexeme in front of some text depends on the next character alone, unless it is the opening mark
of a heredoc without a label line. -/
theorem reach_congr (h : reach c (tail ++ d :: r) = ⟨k, tail, d :: r⟩)
    (hmark : c :: tail = heredocMark → heredoc? (d :: r') = none) :
    reach c (tail ++ d :: r') = ⟨k, tail, d :: r'⟩ := by
  by_cases hc : isNameStart c
  · exact reach_word_congr hc h
  by_cases hg : isGap c
  · exact reach_gap_congr hg h
  by_cases ho : c ∈ openers
  · simp only [openers, List.mem_cons, List.not_mem_nil, or_false] at ho
    rcases ho with rfl | rfl | rfl | rfl | rfl | rfl | rfl | rfl | rfl
    · exact reach_slash_congr h
    · exact reach_hash_congr h
    · exact reach_quote_congr (Or.inl rfl) h
    · exact reach_quote_congr (Or.inr rfl) h
    · exact reach_less_congr h fun htail => hmark (congrArg ('<' :: ·) htail)
    · exact reach_dollar_congr h
    · exact reach_pair_congr .colon reach_doubleColon h
    · exact reach_pair_congr .minus reach_arrow h
    · exact reach_question_congr h
  · obtain ⟨kind, hrule⟩ := exists_reach_eq hc hg ho
    exact reach_mark_congr [] (fun rest _ => hrule rest) h

end DocPages
