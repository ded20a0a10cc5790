import DocPages.Declaration
import DocPages.Proofs.Token.Cut

/-!
# What tokens spell

A token with the kind of a word spells a word, and one that separates the parts of a namespace is a
backslash (`IsSpelled`). This holds when a lexeme is cut (`isSpelled_reach`), and settling its kind
only turns a keyword into a name, which spells a word as well (`forall_mem_tokenize`).

Main statement: every token of a source text is spelled as its kind says (`isSpelled_of_mem_tokenize`).
-/

namespace DocPages

/-- The text `t` is what a token of kind `k` may spell. -/
structure IsSpelled (k : TokenKind) (t : Text) : Prop where
  word : k.isWord → Text.isWord t
  mark : k = .namespaceSeparator → t = [separator]

namespace IsSpelled

variable {k : TokenKind} {t : Text}

/-- Other kinds say nothing about the text. -/
theorem of_other (h : (k.isWord || k == .namespaceSeparator) = false) : IsSpelled k t := by
  rw [Bool.or_eq_false_iff] at h
  refine ⟨fun hw => ?_, fun hs => ?_⟩
  · simp [h.1] at hw
  · simp [hs] at h

theorem of_isWord (hk : k.isWord) (ht : Text.isWord t) : IsSpelled k t where
  word _ := ht
  mark h := by
    rw [h] at hk
    exact absurd hk (by decide)

end IsSpelled

theorem isSpelled_reach (c : Char) (cs : Text) :
    IsSpelled (reach c cs).kind (c :: (reach c cs).tail) := by
  by_cases hc : isNameStart c
  · have hword : Text.isWord (c :: cs.takeWhile isNameChar) := by
      rw [Text.isWord, hc, Bool.true_and, List.all_eq_true]
      exact fun d hd => List.mem_takeWhile_imp hd
    rw [reach_of_isNameStart hc]
    exact .of_isWord (TokenKind.isWord_ofWord _) hword
  by_cases hg : isGap c
  · rw [reach_of_isGap hg]
    exact .of_other rfl
  · unfold reach
    rw [if_neg hc, if_neg hg]
    split <;> try exact .of_other rfl
    · refine .of_other ?_
      simp only [Reach.upTo, commentKind]
      split <;> rfl
    · split <;> exact .of_other rfl
    · split <;> exact .of_other rfl
    · refine ⟨fun h => ?_, fun _ => rfl⟩
      simp [TokenKind.isWord] at h

/-! ### From lexemes to tokens -/

section Tokens

variable {P : TokenKind → Text → Prop}

theorem forall_mem_lexemes (hreach : ∀ c cs, P (reach c cs).kind (c :: (reach c cs).tail)) {t : Text}
    {l : Lexeme} (h : l ∈ lexemes t) : P l.kind l.text := by
  fun_induction lexemes t with
  | case1 => simp at h
  | case2 c cs ih =>
    rcases List.mem_cons.1 h with rfl | h
    · exact hreach c cs
    · exact ih h

namespace Lexeme

theorem forall_settle (hname : ∀ k t, k.isKeyword → P k t → P .identifier t) {l : Lexeme}
    (h : P l.kind l.text) (previous : Option TokenKind) (rest : List Lexeme) :
    P (settle previous l rest).kind l.text := by
  unfold settle
  split
  · next hk => exact hname _ _ (Bool.and_eq_true_iff.1 hk).1 h
  · exact h

theorem forall_mem_qualify (hname : ∀ k t, k.isKeyword → P k t → P .identifier t)
    {previous : Option TokenKind} {ls : List Lexeme} (hls : ∀ l ∈ ls, P l.kind l.text) {l : Lexeme}
    (h : l ∈ qualify previous ls) : P l.kind l.text := by
  induction ls generalizing previous with
  | nil => simp [qualify] at h
  | cons m ls ih =>
    rw [qualify_cons] at h
    rcases List.mem_cons.1 h with rfl | h
    · rw [text_settle]
      exact forall_settle hname (hls m List.mem_cons_self) _ _
    · exact ih (fun l hl => hls l (List.mem_cons_of_mem _ hl)) h

theorem forall_mem_place {start : Nat} {ls : List Lexeme} (hls : ∀ l ∈ ls, P l.kind l.text)
    {t : Token} (h : t ∈ place start ls) : P t.kind t.text := by
  induction ls generalizing start with
  | nil => simp at h
  | cons l ls ih =>
    rw [place_cons] at h
    rcases List.mem_cons.1 h with rfl | h
    · exact hls l List.mem_cons_self
    · exact ih (fun l hl => hls l (List.mem_cons_of_mem _ hl)) h

end Lexeme

/-- What holds of every lexeme that is cut, and still holds when a keyword becomes a name, holds of
every token. -/
theorem forall_mem_tokenize (hreach : ∀ c cs, P (reach c cs).kind (c :: (reach c cs).tail))
    (hname : ∀ k t, k.isKeyword → P k t → P .identifier t) {source : Text} {t : Token}
    (h : t ∈ tokenize source) : P t.kind t.text :=
  Lexeme.forall_mem_place
    (fun _ => Lexeme.forall_mem_qualify hname fun _ => forall_mem_lexemes hreach) h

end Tokens

/-- Every token of a source text is spelled as its kind says. -/
theorem isSpelled_of_mem_tokenize {source : Text} {t : Token} (h : t ∈ tokenize source) :
    IsSpelled t.kind t.text := by
  refine forall_mem_tokenize isSpelled_reach (fun k t hk ht => .of_isWord rfl (ht.word ?_)) h
  rw [TokenKind.isKeyword, Bool.and_eq_true] at hk
  exact hk.1

end DocPages
