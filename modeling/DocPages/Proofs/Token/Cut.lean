import DocPages.Proofs.Text.Basic
import DocPages.Token.Tokenize
import Mathlib.Data.List.Basic
import Mathlib.Data.List.Chain

/-!
# Cutting a text piece by piece

How a text is cut depends on what follows it: a word goes on as long as name characters come, and a
row of blanks as long as blanks come. `lexemes_word`, `lexemes_blank`, `lexemes_docBlock` and
`lexemes_mark` say for each kind of lexeme in front of which text it ends where it should.

A piece (`Piece`) is a text that is cut and settled in the same way wherever it stands, provided no
blank follows. Pieces may be put one behind the other (`Piece.append`).
-/

namespace DocPages

/-! ### Words and documentation blocks -/

namespace Text

/-- Whether a text is a word: a name start and name characters behind it. -/
def isWord : Text → Bool
  | [] => false
  | c :: cs => isNameStart c && cs.all isNameChar

theorem isNameChar_of_mem {w : Text} (hw : isWord w) {c : Char} (hc : c ∈ w) : isNameChar c := by
  cases w with
  | nil => simp at hc
  | cons d ds =>
    rw [isWord, Bool.and_eq_true, List.all_eq_true] at hw
    rcases List.mem_cons.1 hc with rfl | hc
    · rw [isNameChar, hw.1, Bool.true_or]
    · exact hw.2 c hc

/-- A text after the opening mark of a comment that has the closing mark once, at its end. -/
structure IsClosed (body : Text) : Prop where
  closed : ['*', '/'] <:+ body
  once : ∀ s r, body = s ++ '*' :: '/' :: r → r = []

theorem IsClosed.tail {c : Char} {cs : Text} (h : IsClosed (c :: cs)) (hne : c :: cs ≠ ['*', '/']) :
    IsClosed cs where
  closed := (List.suffix_cons_iff.1 h.closed).resolve_left fun he => hne he.symm
  once s r hs := h.once (c :: s) r (by rw [hs, List.cons_append])

theorem IsClosed.ne_nil {body : Text} (h : IsClosed body) : body ≠ [] := by
  rintro rfl
  simpa using h.closed.length_le

/-- A text without the closing mark of a comment. -/
def HasNoMark (t : Text) : Prop := ¬ ['*', '/'] <:+: t

theorem hasNoMark_iff_isChain {t : Text} :
    HasNoMark t ↔ t.IsChain fun a b => ¬ (a = '*' ∧ b = '/') := by
  rw [List.isChain_iff_forall_rel_of_append_cons_cons]
  constructor
  · rintro h a b s r rfl ⟨rfl, rfl⟩
    exact h ⟨s, r, by simp⟩
  · rintro h ⟨s, r, rfl⟩
    exact @h '*' '/' s r (by simp) ⟨rfl, rfl⟩

instance (t : Text) : Decidable (HasNoMark t) := decidable_of_iff _ hasNoMark_iff_isChain.symm

/-- A character that the mark is not made of keeps the parts beside it apart. -/
theorem hasNoMark_append_cons {c : Char} {a b : Text} (hstar : c ≠ '*') (hslash : c ≠ '/') :
    HasNoMark (a ++ c :: b) ↔ HasNoMark a ∧ HasNoMark b := by
  simp only [hasNoMark_iff_isChain, List.isChain_append, List.isChain_cons]
  simp [hstar, hslash]

theorem hasNoMark_of_not_mem {t : Text} (h : '*' ∉ t) : HasNoMark t :=
  fun hmark => h (hmark.subset (by simp))

theorem hasNoMark_star : HasNoMark ['*'] := hasNoMark_iff_isChain.2 (List.isChain_singleton _)

theorem HasNoMark.of_isInfix {s t : Text} (h : HasNoMark t) (hs : s <:+: t) : HasNoMark s :=
  fun hmark => h (hmark.trans hs)

/-- A text without a closing mark is closed by the one behind it. -/
theorem isClosed_append_of_hasNoMark {t : Text} (h : HasNoMark t) : IsClosed (t ++ ['*', '/']) where
  closed := List.suffix_append _ _
  once s r hs := by
    -- A mark further to the left would share its slash with a star or lie in `t`.
    rcases List.eq_nil_or_concat' r with hr | ⟨r, c, rfl⟩
    · exact hr
    have hall : (t ++ ['*']) ++ ['/'] = (s ++ '*' :: '/' :: r) ++ [c] := by simpa using hs
    have hstar : t ++ ['*'] = s ++ '*' :: '/' :: r := List.append_inj_left' hall rfl
    rcases List.eq_nil_or_concat' r with rfl | ⟨r, d, rfl⟩
    · simpa using congrArg List.getLast? hstar
    · have hstar' : t ++ ['*'] = (s ++ '*' :: '/' :: r) ++ [d] := by simpa using hstar
      have ht : t = s ++ '*' :: '/' :: r := List.append_inj_left' hstar' rfl
      exact absurd ⟨s, r, by simp [ht]⟩ h

/-- A text without a slash is closed by the closing mark behind it. -/
theorem isClosed_append {t : Text} (h : '/' ∉ t) : IsClosed (t ++ ['*', '/']) :=
  isClosed_append_of_hasNoMark fun hmark => h (hmark.subset (by simp))

/-- A closed comment ends at its closing mark, whatever follows. -/
theorem commentBody_append_of_isClosed {body : Text} (h : IsClosed body) (rest : Text) :
    commentBody (body ++ rest) = (body, rest) := by
  induction body with
  | nil => exact absurd rfl h.ne_nil
  | cons c cs ih =>
    by_cases hend : c :: cs = ['*', '/']
    · rw [hend]
      rfl
    · have htail := h.tail hend
      rw [List.cons_append]
      unfold commentBody
      split
      · next r he =>
        obtain ⟨d, ds, rfl⟩ := List.exists_cons_of_ne_nil htail.ne_nil
        simp only [List.cons_append, List.cons.injEq] at he
        obtain ⟨rfl, rfl, rfl⟩ := he
        have hnil : ds = [] := h.once [] ds rfl
        exact absurd (by rw [hnil]) hend
      · next d ds _ he =>
        rw [List.cons.injEq] at he
        rw [← he.1, ← he.2, ih htail, keep]
      · next he => exact absurd he (List.cons_ne_nil _ _)

end Text

open Text

/-! ### One lexeme -/

/-- A word that stands as a plain name. -/
def Lexeme.name (w : Text) : Lexeme := ⟨.identifier, w⟩

/-- A single blank. -/
def Lexeme.blank (c : Char) : Lexeme := ⟨.whitespace, [c]⟩

section Lexemes

variable {rest : Text}

theorem isNameStart_eq_false_of_isGap {c : Char} (h : isGap c) : isNameStart c = false := by
  simp only [isGap, Bool.or_eq_true, beq_iff_eq] at h
  rcases h with (((rfl | rfl) | rfl) | rfl) | rfl <;> rfl

theorem reach_of_isNameStart {c : Char} (h : isNameStart c) (cs : Text) :
    reach c cs = .while (.ofWord (c :: cs.takeWhile isNameChar)) isNameChar cs := by
  unfold reach
  rw [if_pos h]

theorem reach_of_isGap {c : Char} (h : isGap c) (cs : Text) :
    reach c cs = .while .whitespace isGap cs := by
  unfold reach
  rw [if_neg (by simp [isNameStart_eq_false_of_isGap h]), if_pos h]

theorem reach_comment (cs : Text) :
    reach '/' ('*' :: cs) = .upTo (commentKind (commentBody cs).1) ['*'] (commentBody cs) := rfl

theorem lexemes_word {w : Text} (hw : isWord w) (hr : ∀ c ∈ rest.head?, isNameChar c = false) :
    lexemes (w ++ rest) = ⟨.ofWord w, w⟩ :: lexemes rest := by
  cases w with
  | nil => simp [isWord] at hw
  | cons c cs =>
    simp only [isWord, Bool.and_eq_true, List.all_eq_true] at hw
    rw [List.cons_append, lexemes_cons, reach_of_isNameStart hw.1]
    simp only [Reach.while, takeWhile_append_of_boundary hw.2 hr,
      dropWhile_append_of_boundary hw.2 hr]

theorem lexemes_blank {c : Char} (hc : isGap c) (hr : ∀ d ∈ rest.head?, isGap d = false) :
    lexemes (c :: rest) = Lexeme.blank c :: lexemes rest := by
  have hnone : ∀ d ∈ ([] : Text), isGap d := by simp
  have htake : rest.takeWhile isGap = [] := takeWhile_append_of_boundary hnone hr
  have hdrop : rest.dropWhile isGap = rest := dropWhile_append_of_boundary hnone hr
  rw [lexemes_cons, reach_of_isGap hc]
  simp only [Reach.while, htake, hdrop, Lexeme.blank]

theorem lexemes_docBlock {body : Text} (hc : IsClosed body) (hd : isDocBody body) :
    lexemes ('/' :: '*' :: body ++ rest) = ⟨.docBlock, '/' :: '*' :: body⟩ :: lexemes rest := by
  rw [List.cons_append, List.cons_append, lexemes_cons, reach_comment]
  simp only [Reach.upTo, commentBody_append_of_isClosed hc, commentKind, if_pos hd,
    List.singleton_append]

/-- The punctuation marks that are lexemes of their own, whatever follows. -/
def markKind? : Char → Option TokenKind
  | '\\' => some .namespaceSeparator
  | ';' => some .semicolon
  | '{' => some .openBrace
  | '}' | '(' | ')' => some .other
  | _ => none

theorem lexemes_mark {c : Char} {k : TokenKind} (h : markKind? c = some k) :
    lexemes (c :: rest) = ⟨k, [c]⟩ :: lexemes rest := by
  rw [lexemes_cons]
  unfold markKind? at h
  split at h <;> first | contradiction | (cases h; rfl)

end Lexemes

/-! ### Settled kinds -/

namespace Lexeme

/-- A kind after which a keyword stays one. -/
def IsPlain (previous : Option TokenKind) : Prop := previous.any TokenKind.qualifiesNext = false

section Qualify

variable {previous : Option TokenKind} {l : Lexeme} {ls : List Lexeme} {w : Text}

theorem qualify_cons :
    qualify previous (l :: ls) =
      settle previous l ls ::
        qualify (if (settle previous l ls).isTransparent then previous
          else some (settle previous l ls).kind) ls := rfl

theorem isTransparent_of_isWord {k : TokenKind} (hw : isWord w) (hk : k ≠ .whitespace) :
    (⟨k, w⟩ : Lexeme).isTransparent = false := by
  have hne : w ≠ referenceMark := by
    rintro rfl
    exact absurd hw (by decide)
  simp [isTransparent, hk, hne]

theorem settle_of_not_isKeyword (h : l.kind.isKeyword = false) : settle previous l ls = l := by
  simp [settle, h]

/-- Where nothing qualifies it, a lexeme keeps its kind. -/
theorem settle_of_isPlain (hp : IsPlain previous) (hs : startsWithSeparator ls = false) :
    settle previous l ls = l := by
  have hany : previous.any TokenKind.qualifiesNext = false := hp
  simp [settle, hany, hs]

/-- Behind or in front of something that qualifies it, a word is a name. -/
theorem settle_word (h : previous.any TokenKind.qualifiesNext ∨ startsWithSeparator ls) :
    settle previous ⟨.ofWord w, w⟩ ls = name w := by
  have hword := TokenKind.isWord_ofWord w
  unfold settle name
  by_cases hk : TokenKind.ofWord w = .identifier
  · simp [hk]
  · simp [TokenKind.isKeyword, hword, hk, h]

theorem qualify_blank (c : Char) :
    qualify previous (blank c :: ls) = blank c :: qualify previous ls := by
  rw [qualify_cons, settle_of_not_isKeyword rfl]
  rfl

/-- A mark that is neither a keyword nor transparent comes before the next lexeme. -/
theorem qualify_mark (hk : l.kind.isKeyword = false) (ht : l.isTransparent = false) :
    qualify previous (l :: ls) = l :: qualify (some l.kind) ls := by
  rw [qualify_cons, settle_of_not_isKeyword hk, ht]
  rfl

theorem qualify_of_isPlain (hp : IsPlain previous) (hs : startsWithSeparator ls = false)
    (ht : l.isTransparent = false) :
    qualify previous (l :: ls) = l :: qualify (some l.kind) ls := by
  rw [qualify_cons, settle_of_isPlain hp hs, ht]
  rfl

theorem qualify_word (hw : isWord w)
    (h : previous.any TokenKind.qualifiesNext ∨ startsWithSeparator ls) :
    qualify previous (⟨.ofWord w, w⟩ :: ls) = name w :: qualify (some .identifier) ls := by
  rw [qualify_cons, settle_word h, name, isTransparent_of_isWord hw (by decide)]
  rfl

end Qualify

end Lexeme

open Lexeme

/-- A documentation block alone is one token. -/
theorem tokenize_docBlock {body : Text} (hc : IsClosed body) (hd : isDocBody body) :
    tokenize ('/' :: '*' :: body) = [⟨.docBlock, '/' :: '*' :: body, 0⟩] := by
  have hcut : lexemes ('/' :: '*' :: body ++ []) = ⟨.docBlock, '/' :: '*' :: body⟩ :: lexemes [] :=
    lexemes_docBlock hc hd
  rw [List.append_nil, lexemes_nil] at hcut
  rw [tokenize, hcut, qualify_mark rfl rfl]
  rfl

/-! ### Pieces -/

theorem Lexeme.place_append (start : Nat) (ls ms : List Lexeme) :
    place start (ls ++ ms) =
      place start ls ++ place (start + Text.byteSize (ls.map Lexeme.text).flatten) ms := by
  induction ls generalizing start with
  | nil => rfl
  | cons l ls ih =>
    rw [List.cons_append, place_cons, place_cons, ih, List.map_cons, List.flatten_cons,
      Text.byteSize_append, Nat.add_assoc, List.cons_append]

/-- A text that does not open with a blank. -/
def StartsSolid (t : Text) : Prop := ∀ c ∈ t.head?, isGap c = false

theorem StartsSolid.append {t u : Text} (ht : StartsSolid t) (hu : StartsSolid u) :
    StartsSolid (t ++ u) := by
  cases t with
  | nil => exact hu
  | cons c cs => exact ht

theorem startsSolid_word_append {w : Text} (hw : isWord w) (t : Text) : StartsSolid (w ++ t) := by
  cases w with
  | nil => simp [isWord] at hw
  | cons c cs =>
    rintro d hd
    obtain rfl : c = d := Option.some.inj hd
    simp only [isWord, Bool.and_eq_true] at hw
    by_contra hgap
    have := isNameStart_eq_false_of_isGap (Bool.not_eq_false _ ▸ hgap)
    simp [this] at hw

/-- The text `t` opens with no blank, and in front of any such text it is cut and settled as `ms`.
Nothing it leaves behind qualifies a keyword. -/
structure Piece (t : Text) (ms : List Lexeme) : Prop where
  solid : StartsSolid t
  cut : ∀ rest, StartsSolid rest → ∀ previous, IsPlain previous →
    ∃ previous', IsPlain previous' ∧
      qualify previous (lexemes (t ++ rest)) = ms ++ qualify previous' (lexemes rest)

namespace Piece

variable {t u : Text} {ms ns : List Lexeme}

theorem nil : Piece [] [] where
  solid := fun c hc => absurd hc (by simp)
  cut rest _ previous hp := ⟨previous, hp, rfl⟩

theorem append (ht : Piece t ms) (hu : Piece u ns) : Piece (t ++ u) (ms ++ ns) where
  solid := ht.solid.append hu.solid
  cut rest hr previous hp := by
    obtain ⟨p₁, hp₁, h₁⟩ := ht.cut (u ++ rest) (hu.solid.append hr) previous hp
    obtain ⟨p₂, hp₂, h₂⟩ := hu.cut rest hr p₁ hp₁
    exact ⟨p₂, hp₂, by rw [List.append_assoc, h₁, h₂, List.append_assoc]⟩

theorem flatMap {α : Type} {items : List α} {f : α → Text} {g : α → List Lexeme}
    (h : ∀ a ∈ items, Piece (f a) (g a)) : Piece (items.flatMap f) (items.flatMap g) := by
  induction items with
  | nil => exact nil
  | cons a items ih =>
    exact (h a List.mem_cons_self).append (ih fun b hb => h b (List.mem_cons_of_mem _ hb))

/-- A whole text that is one piece. -/
theorem tokenize_eq (h : Piece t ms) : tokenize t = place 0 ms := by
  obtain ⟨previous, -, hcut⟩ := h.cut [] (fun c hc => absurd hc (by simp)) none rfl
  rw [List.append_nil, lexemes_nil] at hcut
  rw [tokenize, hcut, qualify, List.append_nil]

/-- A word and a blank, unless the word declares a function. -/
theorem word {w : Text} {c : Char} (hw : isWord w) (hk : TokenKind.ofWord w ≠ .functionWord)
    (hc : isGap c) (hcn : isNameChar c = false) :
    Piece (w ++ [c]) [⟨.ofWord w, w⟩, blank c] where
  solid := startsSolid_word_append hw [c]
  cut rest hr previous hp := by
    have hword := TokenKind.isWord_ofWord w
    have hplain : IsPlain (some (TokenKind.ofWord w)) := by
      show (TokenKind.ofWord w).qualifiesNext = false
      generalize TokenKind.ofWord w = k at hword hk
      cases k <;> first | rfl | contradiction
    have hblank : TokenKind.ofWord w ≠ .whitespace := by
      rintro he
      simp [he, TokenKind.isWord] at hword
    refine ⟨_, hplain, ?_⟩
    rw [List.append_assoc, List.singleton_append, lexemes_word hw (by simpa using hcn),
      lexemes_blank hc hr, qualify_of_isPlain hp rfl (isTransparent_of_isWord hw hblank),
      qualify_blank]
    rfl

/-- A punctuation mark and a blank. -/
theorem mark {c d : Char} {k : TokenKind} (hc : isGap c = false) (hk : markKind? c = some k)
    (hkey : k.isKeyword = false) (hp : IsPlain (some k))
    (ht : (⟨k, [c]⟩ : Lexeme).isTransparent = false) (hd : isGap d) :
    Piece [c, d] [⟨k, [c]⟩, blank d] where
  solid := by
    rintro e he
    obtain rfl : c = e := Option.some.inj he
    exact hc
  cut rest hr previous _ := by
    refine ⟨some k, hp, ?_⟩
    rw [List.cons_append, List.singleton_append, lexemes_mark hk, lexemes_blank hd hr,
      qualify_mark hkey ht, qualify_blank]
    rfl

/-- A documentation block and a blank. -/
theorem docBlock {body : Text} {c : Char} (hb : IsClosed body) (hd : isDocBody body)
    (hc : isGap c) :
    Piece ('/' :: '*' :: body ++ [c]) [⟨.docBlock, '/' :: '*' :: body⟩, blank c] where
  solid := by
    rintro e he
    obtain rfl : '/' = e := Option.some.inj he
    rfl
  cut rest hr previous _ := by
    refine ⟨some .docBlock, rfl, ?_⟩
    rw [List.append_assoc, List.singleton_append, lexemes_docBlock hb hd, lexemes_blank hc hr,
      qualify_mark rfl rfl, qualify_blank]
    rfl

end Piece

end DocPages
