import DocPages.Declaration.Extract
import Mathlib.Tactic.Common

/-!
# Positions in a row of tokens

What a row of tokens declares can be said by positions, without a state that moves along the row.
`lastBefore?` finds the last position below a bound at which a property holds. On it rest the
namespace in front of a position (`namespaceBefore`) and the blocks that document a type
(`typeBlock?`) or a function (`memberBlock?`). A keyword is named (`IsNamed`) when a name follows it,
and `IsTypeSpan` says from where to where the first named type of a row extends.
-/

namespace DocPages

/-! ### The last position with a property -/

section LastBefore

variable (p : Nat → Prop) [DecidablePred p]

/-- The last position below a bound at which `p` holds. -/
def lastBefore? : Nat → Option Nat
  | 0 => none
  | k + 1 => if p k then some k else lastBefore? k

variable {p}

theorem lastBefore?_succ_of_pos {k : Nat} (h : p k) : lastBefore? p (k + 1) = some k := by
  simp [lastBefore?, h]

theorem lastBefore?_succ_of_neg {k : Nat} (h : ¬ p k) :
    lastBefore? p (k + 1) = lastBefore? p k := by
  simp [lastBefore?, h]

theorem lastBefore?_eq_some_iff {k b : Nat} :
    lastBefore? p k = some b ↔ b < k ∧ p b ∧ ∀ j, b < j → j < k → ¬ p j := by
  induction k with
  | zero => simp [lastBefore?]
  | succ k ih =>
    by_cases hk : p k
    · rw [lastBefore?_succ_of_pos hk, Option.some.injEq]
      constructor
      · rintro rfl
        exact ⟨by omega, hk, fun j h₁ h₂ => by omega⟩
      · rintro ⟨hb, -, hlast⟩
        by_contra hne
        exact hlast k (by omega) (by omega) hk
    · rw [lastBefore?_succ_of_neg hk, ih]
      constructor
      · rintro ⟨hb, hp, hlast⟩
        refine ⟨by omega, hp, fun j h₁ h₂ => ?_⟩
        by_cases hj : j = k
        · rwa [hj]
        · exact hlast j h₁ (by omega)
      · rintro ⟨hb, hp, hlast⟩
        have hne : b ≠ k := fun e => hk (e ▸ hp)
        exact ⟨by omega, hp, fun j h₁ h₂ => hlast j h₁ (by omega)⟩

variable {q : Nat → Prop} [DecidablePred q] {j k : Nat}

theorem lastBefore?_congr (h : ∀ i, i < k → (p i ↔ q i)) : lastBefore? p k = lastBefore? q k := by
  induction k with
  | zero => rfl
  | succ k ih =>
    have hk := ih fun i hi => h i (by omega)
    by_cases hp : p k
    · rw [lastBefore?_succ_of_pos hp, lastBefore?_succ_of_pos ((h k (by omega)).1 hp)]
    · have hq : ¬ q k := fun hq => hp ((h k (by omega)).2 hq)
      rw [lastBefore?_succ_of_neg hp, lastBefore?_succ_of_neg hq, hk]

/-- Without a position that is not the last one with a property, the last one stays. -/
theorem lastBefore?_eq_of_ne (hj : lastBefore? p k ≠ some j) (h : ∀ i, i < k → (q i ↔ i ≠ j ∧ p i)) :
    lastBefore? q k = lastBefore? p k := by
  induction k with
  | zero => rfl
  | succ k ih =>
    by_cases hp : p k
    · rw [lastBefore?_succ_of_pos hp] at hj ⊢
      exact lastBefore?_succ_of_pos ((h k (by omega)).2 ⟨fun he => hj (congrArg some he), hp⟩)
    · have hq : ¬ q k := fun hq => hp ((h k (by omega)).1 hq).2
      rw [lastBefore?_succ_of_neg hp] at hj ⊢
      rw [lastBefore?_succ_of_neg hq]
      exact ih hj fun i hi => h i (by omega)

/-- Without the last position with a property, the one before it is the last. -/
theorem lastBefore?_of_ne (hj : lastBefore? p k = some j) (h : ∀ i, i < k → (q i ↔ i ≠ j ∧ p i)) :
    lastBefore? q k = lastBefore? p j := by
  obtain ⟨hjk, -, hlast⟩ := lastBefore?_eq_some_iff.1 hj
  induction k with
  | zero => omega
  | succ k ih =>
    have hq : ¬ q k := by
      rw [h k (by omega)]
      rintro ⟨hne, hp⟩
      exact hlast k (by omega) (by omega) hp
    rw [lastBefore?_succ_of_neg hq]
    by_cases hkj : k = j
    · subst hkj
      refine lastBefore?_congr fun i hi => ?_
      rw [h i (by omega)]
      exact and_iff_right (by omega)
    · have hp : ¬ p k := hlast k (by omega) (by omega)
      rw [lastBefore?_succ_of_neg hp] at hj
      exact ih hj (fun i hi => h i (by omega)) (by omega) fun i h₁ h₂ => hlast i h₁ (by omega)

end LastBefore

namespace Token

variable (ts : List Token)

/-! ### What stands at a position -/

/-- The kind of the token at a position. -/
def kindAt? (i : Nat) : Option TokenKind := ts[i]?.map Token.kind

/-- The text of the token at a position. -/
def textAt? (i : Nat) : Option Text := ts[i]?.map Token.text

/-- The name that the keyword at a position declares: the first token after it that is no gap, if it
is a word. -/
def nameAt? (i : Nat) : Option Text :=
  ((nextSignificant? isNameGap (i + 1) ts).bind fun j => ts[j]?).bind fun t =>
    if t.kind.isWord then some t.text else none

/-- The keyword at position `i` is of kind `k` and declares a name. -/
def IsNamed (k : TokenKind) (i : Nat) : Prop := kindAt? ts i = some k ∧ (nameAt? ts i).isSome

instance (k : TokenKind) : DecidablePred (IsNamed ts k) :=
  fun _ => inferInstanceAs (Decidable (_ ∧ _))

/-- The names and backslashes after a position, up to the first semicolon or opening brace, without
blanks at the ends. -/
def namespaceAt (i : Nat) : Text :=
  Text.trim
    (((((ts.drop (i + 1)).takeWhile fun t => !t.endsNamespace).filter isNamespacePart).map
      Token.text).flatten)

/-- The namespace that the last statement in front of a position declares. -/
def namespaceBefore (k : Nat) : Text :=
  ((lastBefore? (fun i => kindAt? ts i = some .namespaceWord) k).map (namespaceAt ts)).getD []

/-- The position of the last namespace statement in front of a position. -/
def statementBefore? (ts : List Token) (c : Nat) : Option Nat :=
  lastBefore? (fun i => kindAt? ts i = some .namespaceWord) c

/-! ### Types and their functions -/

/-- The first named type stands at `c`, and the next one at `e`, which is the end of the row if
there is none. -/
structure IsTypeSpan (c e : Nat) : Prop where
  named : IsNamed ts .classLike c
  first : ∀ i, i < c → ¬ IsNamed ts .classLike i
  lt : c < e
  stop : IsNamed ts .classLike e ∨ e = ts.length
  next : ∀ i, c < i → i < e → ¬ IsNamed ts .classLike i

/-- The positions of the named functions strictly between two positions. -/
def functionsBetween (c e : Nat) : List Nat :=
  (List.range e).filter fun f => decide (c < f ∧ IsNamed ts .functionWord f)

/-! ### Documentation blocks -/

/-- At position `b` stands a documentation block in front of what `target` says. -/
def IsBlockFor (target : DocTarget) (b : Nat) : Prop :=
  kindAt? ts b = some .docBlock ∧ targetAfter? (ts.drop (b + 1)) = some target

instance (target : DocTarget) : DecidablePred (IsBlockFor ts target) :=
  fun _ => inferInstanceAs (Decidable (_ ∧ _))

/-- The block that documents the type at `c`. -/
def typeBlock? (c : Nat) : Option Nat := lastBefore? (IsBlockFor ts .type) c

/-- The function at `g` uses up the block that waits for a member of the type at `c`: every function
in front of the type does, and every named one after it. -/
def Resets (c g : Nat) : Prop :=
  kindAt? ts g = some .functionWord ∧ (g < c ∨ IsNamed ts .functionWord g)

instance (c : Nat) : DecidablePred (Resets ts c) := fun _ => inferInstanceAs (Decidable (_ ∧ _))

/-- The block that documents the function at `f` in the type at `c`: the last one for members in
front of it, unless another function has used it up. -/
def memberBlock? (c f : Nat) : Option Nat :=
  (lastBefore? (IsBlockFor ts .member) f).filter fun b =>
    decide (∀ g, g < f → b < g → ¬ Resets ts c g)

/-- The blocks that document the members of the type from `c` to `e`. -/
def memberBlocks (c e : Nat) : List Nat := (functionsBetween ts c e).filterMap (memberBlock? ts c)

variable {ts}

/-! ### Lemmas -/

theorem kindAt?_eq {i : Nat} {t : Token} (h : ts[i]? = some t) : kindAt? ts i = some t.kind := by
  simp [kindAt?, h]

theorem textAt?_eq {i : Nat} {t : Token} (h : ts[i]? = some t) : textAt? ts i = some t.text := by
  simp [textAt?, h]

theorem exists_of_nextSignificant? {skip : Token → Bool} {start j : Nat}
    (h : nextSignificant? skip start ts = some j) :
    start ≤ j ∧ (∃ t, ts[j]? = some t ∧ skip t = false) ∧
      ∀ m, start ≤ m → m < j → ∀ t ∈ ts[m]?, skip t := by
  obtain ⟨n, hn, rfl⟩ := Option.map_eq_some_iff.1 h
  obtain ⟨hlt, hstop, hskip⟩ := List.findIdx?_eq_some_iff_getElem.1 hn
  refine ⟨Nat.le_add_right _ _, ?_, fun m hm hmn t ht => ?_⟩
  · refine ⟨(ts.drop start)[n], ?_, by simpa using hstop⟩
    rw [← List.getElem?_drop, List.getElem?_eq_getElem hlt]
  · obtain ⟨k, rfl⟩ := Nat.exists_eq_add_of_le hm
    have hk := hskip k (by omega)
    obtain ⟨hlen, rfl⟩ := List.getElem?_eq_some_iff.1 ht
    simpa using hk

/-- The first token that is not skipped stands at the next position that is not skipped. -/
theorem firstSignificant?_drop (skip : Token → Bool) (start : Nat) :
    firstSignificant? skip (ts.drop start) =
      (nextSignificant? skip start ts).bind fun j => ts[j]? := by
  rw [firstSignificant?, nextSignificant?, List.find?_eq_bind_findIdx?_getElem?, Option.bind_map]
  simp only [Function.comp_def, List.getElem?_drop]

theorem nameAt?_eq (i : Nat) : nameAt? ts i = nameAfter? (ts.drop (i + 1)) := by
  rw [nameAt?, nameAfter?, firstSignificant?_drop]

theorem isNamed_iff {k : TokenKind} {i : Nat} {t : Token} (h : ts[i]? = some t) :
    IsNamed ts k i ↔ t.kind = k ∧ (nameAfter? (ts.drop (i + 1))).isSome := by
  rw [IsNamed, kindAt?_eq h, nameAt?_eq, Option.some.injEq]

theorem namespaceBefore_eq (ts : List Token) (c : Nat) :
    namespaceBefore ts c = ((statementBefore? ts c).map (namespaceAt ts)).getD [] := rfl

theorem memberBlock?_succ_of_block {c k : Nat} (h : IsBlockFor ts .member k) :
    memberBlock? ts c (k + 1) = some k := by
  have hnone : ∀ g, g < k + 1 → k < g → ¬ Resets ts c g := fun g h₁ h₂ => by omega
  rw [memberBlock?, lastBefore?_succ_of_pos h, Option.filter_some, if_pos (decide_eq_true hnone)]

theorem memberBlock?_succ_of_resets {c k : Nat} (h : Resets ts c k) :
    memberBlock? ts c (k + 1) = none := by
  have hk : ¬ IsBlockFor ts .member k := fun hb => by
    have := h.1.symm.trans hb.1
    simp at this
  rw [memberBlock?, lastBefore?_succ_of_neg hk, Option.filter_eq_none_iff]
  intro b hb hall
  exact of_decide_eq_true hall k (by omega) (lastBefore?_eq_some_iff.1 hb).1 h

theorem memberBlock?_succ_of_neither {c k : Nat} (hb : ¬ IsBlockFor ts .member k)
    (hr : ¬ Resets ts c k) : memberBlock? ts c (k + 1) = memberBlock? ts c k := by
  have hall : ∀ b, (∀ g, g < k + 1 → b < g → ¬ Resets ts c g) ↔
      ∀ g, g < k → b < g → ¬ Resets ts c g := by
    intro b
    refine ⟨fun h g hg => h g (by omega), fun h g hg => ?_⟩
    by_cases hgk : g = k
    · exact fun _ => hgk ▸ hr
    · exact h g (by omega)
  simp only [memberBlock?, lastBefore?_succ_of_neg hb, hall]

theorem functionsBetween_succ (c k : Nat) :
    functionsBetween ts c (k + 1) =
      functionsBetween ts c k ++ if c < k ∧ IsNamed ts .functionWord k then [k] else [] := by
  rw [functionsBetween, List.range_succ, List.filter_append]
  by_cases h : c < k ∧ IsNamed ts .functionWord k <;> simp [functionsBetween, h]

theorem functionsBetween_of_le {c e : Nat} (h : e ≤ c + 1) : functionsBetween ts c e = [] := by
  simp only [functionsBetween, List.filter_eq_nil_iff, List.mem_range, decide_eq_true_eq]
  omega

/-- The functions from `c` to `e`, cut at a position that is none of them. -/
theorem functionsBetween_append {c j e : Nat} (hc : c < j) (he : j ≤ e)
    (hj : ¬ IsNamed ts .functionWord j) :
    functionsBetween ts c e = functionsBetween ts c j ++ functionsBetween ts j e := by
  induction he with
  | refl =>
    rw [functionsBetween_of_le (Nat.le_succ j), List.append_nil]
  | @step k hk ih =>
    have hk : j ≤ k := hk
    rw [functionsBetween_succ, functionsBetween_succ, ih, List.append_assoc]
    by_cases hkj : k = j
    · subst hkj
      rw [if_neg fun h => hj h.2, if_neg fun h => hj h.2]
    · simp only [show c < k by omega, show j < k by omega]

theorem mem_functionsBetween {c e f : Nat} :
    f ∈ functionsBetween ts c e ↔ f < e ∧ c < f ∧ IsNamed ts .functionWord f := by
  simp [functionsBetween]

end Token

/-! ### An example -/

/-- A row with a free function, an anonymous class, a closure and a second type. -/
def mixedRow : List Token :=
  Lexeme.place 0 [
    ⟨.namespaceWord, "namespace".toList⟩, ⟨.whitespace, [' ']⟩, ⟨.identifier, "App".toList⟩,
    ⟨.semicolon, [';']⟩, ⟨.docBlock, "/** Free. */".toList⟩, ⟨.functionWord, "function".toList⟩,
    ⟨.identifier, "free".toList⟩, ⟨.classLike, "class".toList⟩, ⟨.openBrace, ['{']⟩,
    ⟨.docBlock, "/** Tool. */".toList⟩, ⟨.modifier, "final".toList⟩, ⟨.classLike, "class".toList⟩,
    ⟨.identifier, "Tool".toList⟩, ⟨.openBrace, ['{']⟩, ⟨.functionWord, "function".toList⟩,
    ⟨.other, ['&']⟩, ⟨.identifier, "run".toList⟩, ⟨.docBlock, "/** Stops. */".toList⟩,
    ⟨.visibility, "public".toList⟩, ⟨.functionWord, "function".toList⟩, ⟨.other, ['(']⟩,
    ⟨.functionWord, "function".toList⟩, ⟨.identifier, "stop".toList⟩, ⟨.other, ['}']⟩,
    ⟨.classLike, "class".toList⟩, ⟨.identifier, "Other".toList⟩,
    ⟨.functionWord, "function".toList⟩, ⟨.identifier, "late".toList⟩]

end DocPages
