import DocPages.Proofs.Token.Position
import DocPages.Proofs.Token.Cut

/-!
# Settled kinds

A keyword is a plain name where its place asks for it: behind a token that qualifies it, past blank
space and reference marks, or in front of a backslash (`IsQualified`). The kinds of a row are settled
in place, from left to right (`settleRow`), so what one keyword becomes hangs on what the keywords in
front of it have become. `IsSettled` says what a row should be in the end, judged by that row alone.
There is only one such row (`IsSettled.eq`); the pass in place ends in it (`isSettled_settleRow`), and
so does the one that carries the last settled kind along (`isSettled_tokenize`).

Main statement: `tokenize_settled`.
-/

namespace DocPages

open Lexeme

/-! ### What is settled -/

namespace Token

/-- Blank space and reference marks do not come between a keyword and what stands before it. -/
def isTransparent (t : Token) : Bool := t.kind == .whitespace || t.text == referenceMark

variable (ts : List Token)

/-- At a position stands a token that is not transparent. -/
def IsSolid (j : Nat) : Prop := ∃ t, ts[j]? = some t ∧ t.isTransparent = false

instance : DecidablePred (IsSolid ts) := fun j =>
  decidable_of_iff ((ts[j]?.any fun t => !t.isTransparent) = true) (by
    rw [Option.any_eq_true_iff_get]
    constructor
    · rintro ⟨hsome, hsolid⟩
      exact ⟨_, (Option.some_get hsome).symm, by simpa using hsolid⟩
    · rintro ⟨t, ht, hsolid⟩
      simp [ht, hsolid])

/-- The kind of the nearest token in front of a position that is not transparent. -/
def solidKindBefore? (i : Nat) : Option TokenKind := (lastBefore? (IsSolid ts) i).bind (kindAt? ts)

/-- The place of a token asks for a plain name. -/
def IsQualified (i : Nat) : Prop :=
  (∃ k ∈ solidKindBefore? ts i, k.qualifiesNext) ∨ kindAt? ts (i + 1) = some .namespaceSeparator

instance : DecidablePred (IsQualified ts) := fun i =>
  decidable_of_iff ((solidKindBefore? ts i).any TokenKind.qualifiesNext = true ∨
    kindAt? ts (i + 1) = some .namespaceSeparator) (by simp [IsQualified, Option.any_eq_true])

/-- What a token of kind `k` becomes at a position. -/
def settledKind (i : Nat) (k : TokenKind) : TokenKind :=
  if k.isKeyword ∧ IsQualified ts i then .identifier else k

/-- Settles the kind of the token at a position, and leaves the rest of the row as it is. -/
def settleAt (i : Nat) : List Token := ts.modify i fun t => { t with kind := settledKind ts i t.kind }

/-- The row after the kinds of its first `k` tokens have been settled in place, from left to right. -/
def settledUpTo (k : Nat) : List Token := (List.range k).foldl settleAt ts

/-- Settles the kinds of a row in place. -/
def settleRow : List Token := settledUpTo ts ts.length

/-- The row `final` has the tokens of `raw`, and each has the kind that its place in `final` asks
for. -/
structure IsSettled (raw final : List Token) : Prop where
  text : final.map Token.text = raw.map Token.text
  offset : final.map Token.offset = raw.map Token.offset
  kind : ∀ i, kindAt? final i = (kindAt? raw i).map (settledKind final i)

end Token

open Token

/-- The tokens of a source text, with the kinds that their texts have by themselves. -/
def rawTokens (source : Text) : List Token := place 0 (lexemes source)

namespace Token

variable {ts us raw final : List Token} {i : Nat}

/-! ### Places -/

theorem solidKindBefore?_succ {t : Token} (ht : ts[i]? = some t) :
    solidKindBefore? ts (i + 1) =
      if t.isTransparent then solidKindBefore? ts i else some t.kind := by
  unfold solidKindBefore?
  cases hs : t.isTransparent with
  | true =>
    have hnot : ¬ IsSolid ts i := by
      rintro ⟨u, hu, hsolid⟩
      obtain rfl := Option.some.inj (ht.symm.trans hu)
      simp [hs] at hsolid
    rw [lastBefore?_succ_of_neg hnot, if_pos rfl]
  | false =>
    have hsolid : IsSolid ts i := ⟨t, ht, hs⟩
    rw [lastBefore?_succ_of_pos hsolid, Option.bind_some, kindAt?_eq ht, if_neg Bool.false_ne_true]

/-- What stands in front of a position decides which kind comes last there. -/
theorem solidKindBefore?_congr (h : ∀ j, j < i → ts[j]? = us[j]?) :
    solidKindBefore? ts i = solidKindBefore? us i := by
  have hlast : lastBefore? (IsSolid ts) i = lastBefore? (IsSolid us) i :=
    lastBefore?_congr fun j hj => by rw [IsSolid, IsSolid, h j hj]
  unfold solidKindBefore?
  rw [hlast]
  cases hb : lastBefore? (IsSolid us) i with
  | none => rfl
  | some j => rw [Option.bind_some, Option.bind_some, kindAt?, kindAt?,
      h j (lastBefore?_eq_some_iff.1 hb).1]

theorem settledKind_congr (h : ∀ j, j < i → ts[j]? = us[j]?)
    (hnext : kindAt? ts (i + 1) = some .namespaceSeparator ↔
      kindAt? us (i + 1) = some .namespaceSeparator) :
    settledKind ts i = settledKind us i := by
  have hq : IsQualified ts i ↔ IsQualified us i := by
    rw [IsQualified, IsQualified, solidKindBefore?_congr h, hnext]
  funext k
  simp only [settledKind, hq]

/-- Only a keyword is settled, and as no separator. -/
theorem settledKind_eq_separator_iff {k : TokenKind} :
    settledKind ts i k = .namespaceSeparator ↔ k = .namespaceSeparator := by
  unfold settledKind
  split
  · next h =>
    refine ⟨fun hk => absurd hk (by decide), ?_⟩
    rintro rfl
    exact absurd h.1 (by decide)
  · rfl

/-- A kind that is settled stays. -/
theorem settledKind_settledKind (k : TokenKind) :
    settledKind ts i (settledKind ts i k) = settledKind ts i k := by
  by_cases h : k.isKeyword ∧ IsQualified ts i
  · have hk : settledKind ts i k = .identifier := if_pos h
    rw [hk]
    exact if_neg fun h => absurd h.1 (by decide)
  · have hk : settledKind ts i k = k := if_neg h
    rw [hk, hk]

/-! ### The settled row -/

theorem getElem?_congr_of_map_eq (htext : ts.map Token.text = us.map Token.text)
    (hoffset : ts.map Token.offset = us.map Token.offset) (hkind : kindAt? ts i = kindAt? us i) :
    ts[i]? = us[i]? := by
  have ht := congrArg (·[i]?) htext
  have ho := congrArg (·[i]?) hoffset
  simp only [List.getElem?_map] at ht ho
  unfold kindAt? at hkind
  cases hu : us[i]? with
  | none => simpa [hu] using hkind
  | some u =>
    rw [hu] at ht ho hkind
    obtain ⟨t, hts, hk⟩ := Option.map_eq_some_iff.1 hkind
    rw [hts] at ht ho ⊢
    exact congrArg some (by cases t; cases u; simp_all)

namespace IsSettled

theorem separator_iff (h : IsSettled raw final) :
    kindAt? final i = some .namespaceSeparator ↔ kindAt? raw i = some .namespaceSeparator := by
  rw [h.kind, Option.map_eq_some_iff]
  simp only [settledKind_eq_separator_iff, exists_eq_right]

/-- A row is settled in one way only: each keyword is decided by tokens whose kinds have been decided
before. -/
theorem eq (h : IsSettled raw ts) (h' : IsSettled raw us) : ts = us := by
  apply List.ext_getElem?
  intro i
  induction i using Nat.strongRecOn with
  | ind i ih =>
    refine getElem?_congr_of_map_eq (h.text.trans h'.text.symm) (h.offset.trans h'.offset.symm) ?_
    rw [h.kind, h'.kind, settledKind_congr ih (h.separator_iff.trans h'.separator_iff.symm)]

/-- A settled row is settled already. -/
theorem self (h : IsSettled raw final) : IsSettled final final where
  text := rfl
  offset := rfl
  kind i := by
    rw [h.kind, Option.map_map]
    congr 1
    funext k
    exact (settledKind_settledKind k).symm

end IsSettled

/-! ### In place -/

theorem getElem?_settleAt_of_ne {j : Nat} (h : j ≠ i) : (settleAt ts i)[j]? = ts[j]? := by
  simp [settleAt, h.symm]

theorem kindAt?_settleAt_self :
    kindAt? (settleAt ts i) i = (kindAt? ts i).map (settledKind ts i) := by
  simp [kindAt?, settleAt, Function.comp_def]

/-- What does not depend on its kind is the same of a settled token. -/
theorem map_settleAt {α : Type} {f : Token → α} (hf : ∀ t k, f { t with kind := k } = f t) :
    (settleAt ts i).map f = ts.map f := by
  apply List.ext_getElem?
  intro j
  by_cases hj : j = i
  · subst hj
    simp [settleAt, Function.comp_def, hf]
  · rw [List.getElem?_map, getElem?_settleAt_of_ne hj, List.getElem?_map]

theorem settledUpTo_succ (k : Nat) : settledUpTo ts (k + 1) = settleAt (settledUpTo ts k) k := by
  rw [settledUpTo, List.range_succ, List.foldl_append, List.foldl_cons, List.foldl_nil, settledUpTo]

theorem map_settledUpTo {α : Type} {f : Token → α} (hf : ∀ t k, f { t with kind := k } = f t)
    (k : Nat) : (settledUpTo ts k).map f = ts.map f := by
  induction k with
  | zero => rfl
  | succ k ih => rw [settledUpTo_succ, map_settleAt hf, ih]

/-- A token is as it was until its turn comes. -/
theorem getElem?_settledUpTo_of_le {j k : Nat} (h : k ≤ j) : (settledUpTo ts k)[j]? = ts[j]? := by
  induction k with
  | zero => rfl
  | succ k ih => rw [settledUpTo_succ, getElem?_settleAt_of_ne (by omega), ih (by omega)]

/-- Once its turn has come, a token stays as it is. -/
theorem getElem?_settledUpTo_of_lt {j k n : Nat} (hj : j < k) (hk : k ≤ n) :
    (settledUpTo ts n)[j]? = (settledUpTo ts k)[j]? := by
  induction hk with
  | refl => rfl
  | @step n hn ih =>
    have hn : k ≤ n := hn
    rw [settledUpTo_succ, getElem?_settleAt_of_ne (by omega), ih]

/-- When its turn comes, a token becomes what its place in the row of that time asks for. -/
theorem kindAt?_settledUpTo {n : Nat} (h : i < n) :
    kindAt? (settledUpTo ts n) i = (kindAt? ts i).map (settledKind (settledUpTo ts i) i) := by
  have hturn : kindAt? (settledUpTo ts n) i = kindAt? (settledUpTo ts (i + 1)) i := by
    rw [kindAt?, kindAt?, getElem?_settledUpTo_of_lt (Nat.lt_succ_self i) h]
  rw [hturn, settledUpTo_succ, kindAt?_settleAt_self, kindAt?, kindAt?,
    getElem?_settledUpTo_of_le le_rfl]

theorem settledUpTo_separator_iff {k n : Nat} :
    kindAt? (settledUpTo ts n) k = some .namespaceSeparator ↔
      kindAt? ts k = some .namespaceSeparator := by
  by_cases h : k < n
  · rw [kindAt?_settledUpTo h, Option.map_eq_some_iff]
    simp only [settledKind_eq_separator_iff, exists_eq_right]
  · rw [kindAt?, kindAt?, getElem?_settledUpTo_of_le (by omega)]

/-- The pass in place settles every row. -/
theorem isSettled_settleRow (ts : List Token) : IsSettled ts (settleRow ts) where
  text := map_settledUpTo (fun _ _ => rfl) _
  offset := map_settledUpTo (fun _ _ => rfl) _
  kind i := by
    rw [settleRow]
    by_cases hi : i < ts.length
    · -- Of the final row, the decision at `i` reads only what was there when it was made.
      have hplace : settledKind (settledUpTo ts i) i =
          settledKind (settledUpTo ts ts.length) i := by
        apply settledKind_congr
        · intro j hj
          exact (getElem?_settledUpTo_of_lt hj (by omega)).symm
        · exact settledUpTo_separator_iff.trans settledUpTo_separator_iff.symm
      rw [kindAt?_settledUpTo hi, hplace]
    · have hnone : ts[i]? = none := List.getElem?_eq_none (Nat.le_of_not_lt hi)
      rw [kindAt?, kindAt?, getElem?_settledUpTo_of_le (Nat.le_of_not_lt hi), hnone]
      rfl

end Token

/-! ### With the last settled kind at hand -/

namespace Lexeme

variable {ps : List Token} {previous : Option TokenKind} {ls : List Lexeme} {l : Lexeme}

theorem kind_settle (previous : Option TokenKind) (l : Lexeme) (ls : List Lexeme) :
    (settle previous l ls).kind =
      if l.kind.isKeyword ∧ (previous.any TokenKind.qualifiesNext ∨ startsWithSeparator ls) then
        .identifier
      else l.kind := by
  simp only [settle, Bool.and_eq_true, Bool.or_eq_true]
  split <;> rfl

theorem kindAt?_append_length (ps us : List Token) (i : Nat) :
    kindAt? (ps ++ us) (ps.length + i) = kindAt? us i := by
  rw [kindAt?, kindAt?, List.getElem?_append_right (Nat.le_add_right _ _), Nat.add_sub_cancel_left]

theorem startsWithSeparator_iff (start : Nat) :
    startsWithSeparator ls ↔
      kindAt? (place start (qualify previous ls)) 0 = some .namespaceSeparator := by
  cases ls with
  | nil => simp [startsWithSeparator, qualify, kindAt?]
  | cons l ls =>
    rw [qualify_cons, place_cons, kindAt?_eq rfl, Option.some.injEq, kind_settle]
    split
    · next h =>
      refine iff_of_false (fun hs => ?_) TokenKind.noConfusion
      rw [startsWithSeparator, List.head?_cons, Option.map_some, beq_iff_eq, Option.some.injEq] at hs
      rw [hs] at h
      exact absurd h.1 (by decide)
    · simp [startsWithSeparator]

theorem solidKindBefore?_append_length (ps us : List Token) :
    solidKindBefore? (ps ++ us) ps.length = solidKindBefore? ps ps.length :=
  solidKindBefore?_congr fun _ hj => List.getElem?_append_left hj

/-- A row that goes on with a lexeme has the last solid kind that `qualify` carries along. -/
theorem solidKindBefore?_concat (hp : solidKindBefore? ps ps.length = previous) (l : Lexeme)
    (start : Nat) :
    solidKindBefore? (ps ++ place start [l]) (ps ++ place start [l]).length =
      if l.isTransparent then previous else some l.kind := by
  rw [place_cons, place_nil, List.length_append, List.length_singleton,
    solidKindBefore?_succ List.getElem?_concat_length, solidKindBefore?_append_length, hp]
  rfl

/-- Where a lexeme stands behind a row whose last solid kind is `previous`, its place asks for what
`settle` looks at. -/
theorem isQualified_append_length (hp : solidKindBefore? ps ps.length = previous) (start : Nat)
    (t : Token) (p : Option TokenKind) :
    IsQualified (ps ++ t :: place start (qualify p ls)) ps.length ↔
      previous.any TokenKind.qualifiesNext ∨ startsWithSeparator ls := by
  have hbefore : solidKindBefore? (ps ++ t :: place start (qualify p ls)) ps.length = previous := by
    rw [solidKindBefore?_append_length, hp]
  have hnext : kindAt? (ps ++ t :: place start (qualify p ls)) (ps.length + 1) =
      kindAt? (place start (qualify p ls)) 0 := kindAt?_append_length ps _ 1
  rw [IsQualified, hbefore, hnext, startsWithSeparator_iff start, Option.any_eq_true]
  rfl

/-- Such a lexeme becomes what its place asks for. -/
theorem kind_settle_eq_settledKind (hp : solidKindBefore? ps ps.length = previous) (start : Nat)
    (t : Token) (p : Option TokenKind) :
    (settle previous l ls).kind =
      settledKind (ps ++ t :: place start (qualify p ls)) ps.length l.kind := by
  rw [kind_settle]
  simp only [settledKind, isQualified_append_length hp]

/-- Behind a row whose last solid kind is `previous`, all lexemes become what their places ask for. -/
theorem kindAt?_append_qualify (hp : solidKindBefore? ps ps.length = previous) (start i : Nat) :
    kindAt? (ps ++ place start (qualify previous ls)) (ps.length + i) =
      (ls[i]?.map Lexeme.kind).map
        (settledKind (ps ++ place start (qualify previous ls)) (ps.length + i)) := by
  induction ls generalizing ps previous start i with
  | nil =>
    rw [kindAt?_append_length]
    rfl
  | cons l ls ih =>
    rw [qualify_cons, place_cons]
    cases i with
    | zero =>
      rw [kindAt?_append_length, kindAt?_eq rfl, List.getElem?_cons_zero, Option.map_some,
        Option.map_some]
      exact congrArg some (kind_settle_eq_settledKind hp _ _ _)
    | succ i =>
      -- The lexemes behind the first one stand behind the row that it makes longer.
      have hrest := ih (solidKindBefore?_concat hp (settle previous l ls) start)
        (start + Text.byteSize (settle previous l ls).text) i
      rw [List.append_assoc, List.length_append, place_cons, place_nil, List.length_singleton,
        Nat.add_assoc, Nat.add_comm 1 i] at hrest
      exact hrest

theorem kindAt?_place (start : Nat) (ls : List Lexeme) (i : Nat) :
    kindAt? (place start ls) i = ls[i]?.map Lexeme.kind := by
  rw [kindAt?, ← List.getElem?_map, map_kind_place, List.getElem?_map]

/-- Where the lexemes of a row start depends on their texts only. -/
theorem map_offset_place_congr {ms : List Lexeme} (h : ls.map Lexeme.text = ms.map Lexeme.text)
    (start : Nat) : (place start ls).map Token.offset = (place start ms).map Token.offset := by
  induction ls generalizing ms start with
  | nil =>
    obtain rfl := List.map_eq_nil_iff.1 h.symm
    rfl
  | cons l ls ih =>
    obtain ⟨m, ms, rfl, hm, hms⟩ := List.map_eq_cons_iff.1 h.symm
    rw [place_cons, place_cons, List.map_cons, List.map_cons, ih hms.symm, hm]

end Lexeme

/-- The pass that carries the last settled kind along settles the tokens of every source. -/
theorem isSettled_tokenize (source : Text) : IsSettled (rawTokens source) (tokenize source) where
  text := by rw [tokenize, rawTokens, map_text_place, map_text_place, map_text_qualify]
  offset := map_offset_place_congr (map_text_qualify none _) 0
  kind i := by
    have hrow := @kindAt?_append_qualify [] none (lexemes source) rfl 0 i
    rw [List.length_nil, Nat.zero_add, List.nil_append] at hrow
    rw [tokenize, hrow, rawTokens, kindAt?_place]

/-- The kinds of a source are settled in place. In the end a keyword is a plain name exactly if its
place in the final row asks for one, and every other token has the kind that its text has by itself;
so there is nothing left to settle. Texts and offsets stay as they are. -/
theorem tokenize_settled (source : Text) :
    tokenize source = settleRow (rawTokens source) ∧
      (tokenize source).map Token.text = (rawTokens source).map Token.text ∧
      (tokenize source).map Token.offset = (rawTokens source).map Token.offset ∧
      (∀ i, kindAt? (tokenize source) i = (kindAt? (rawTokens source) i).map fun k =>
        if k.isKeyword ∧ IsQualified (tokenize source) i then .identifier else k) ∧
      settleRow (tokenize source) = tokenize source := by
  have h := isSettled_tokenize source
  have hagain := isSettled_settleRow (tokenize source)
  exact ⟨h.eq (isSettled_settleRow _), h.text, h.offset, h.kind, hagain.eq h.self⟩

/-- Of three keywords in a row, the second one is the name of a function and the third one is not. -/
example : (tokenize "function function function".toList).map Token.kind =
    [.functionWord, .whitespace, .identifier, .whitespace, .functionWord] := by cbv

end DocPages
