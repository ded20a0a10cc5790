import DocPages.Proofs.Token.Position
import Mathlib.Data.List.TakeWhile

/-!
# What a row of tokens declares

The pass over a row of tokens keeps a state (`ScanState`). This module says what the state is after
the first `k` tokens (`ScanState.after`) in terms of positions: first what one token does to it, case
by case (`Move`), then the two invariants of a whole run, in front of the first named type
(`BeforeType`) and inside it (`InsideType`). A named type after the first one settles the declaration.

Main statement: the declaration of a row is the one that `described?` reads off the positions of its
named types, named functions and documentation blocks (`declaration_extract`).
-/

namespace DocPages

open Token

/-! ### The declaration by positions -/

namespace Token

variable (ts : List Token)

/-- The member that the function at `f` is of the type at `c`. -/
def memberAt (c f : Nat) : Member :=
  ⟨(nameAt? ts f).getD [], (memberBlock? ts c f).bind (textAt? ts)⟩

/-- The declaration of the type at `c` with the members in front of position `e`. -/
def declarationAt (path : Text) (c e : Nat) : Declaration where
  namespaceName := namespaceBefore ts c
  typeName := (nameAt? ts c).getD []
  documentation := (typeBlock? ts c).bind (textAt? ts)
  members := (functionsBetween ts c e).map (memberAt ts c)
  sourcePath := path

/-- The position of the first named type. -/
def firstType? : Option Nat :=
  (List.range ts.length).find? fun i => decide (IsNamed ts .classLike i)

/-- The position of the first named type after `c`, or the end of the row. -/
def typeEnd (c : Nat) : Nat :=
  ((List.range ts.length).find? fun i => decide (c < i ∧ IsNamed ts .classLike i)).getD ts.length

/-- The declaration of a row of tokens. -/
def described? (path : Text) : Option Declaration :=
  (firstType? ts).map fun c => declarationAt ts path c (typeEnd ts c)

variable {ts}

theorem lt_length_of_isNamed {k : TokenKind} {i : Nat} (h : IsNamed ts k i) : i < ts.length := by
  by_contra hi
  have := h.1
  simp [kindAt?, List.getElem?_eq_none (Nat.le_of_not_lt hi)] at this

theorem firstType?_eq_some_iff {c : Nat} :
    firstType? ts = some c ↔
      IsNamed ts .classLike c ∧ ∀ i, i < c → ¬ IsNamed ts .classLike i := by
  rw [firstType?, List.find?_range_eq_some]
  simp only [decide_eq_true_eq, List.mem_range, Bool.not_eq_true', decide_eq_false_iff_not]
  exact ⟨fun h => ⟨h.1, h.2.2⟩, fun h => ⟨h.1, lt_length_of_isNamed h.1, h.2⟩⟩

theorem firstType?_eq_none_iff : firstType? ts = none ↔ ∀ i, ¬ IsNamed ts .classLike i := by
  rw [firstType?, List.find?_range_eq_none]
  simp only [Bool.not_eq_true', decide_eq_false_iff_not]
  exact ⟨fun h i hi => h i (lt_length_of_isNamed hi) hi, fun h i _ => h i⟩

/-- From a position up to the end of its type no named type comes, and that end is the next named
type or the end of the row. -/
theorem typeEnd_spec {c : Nat} (h : c < ts.length) :
    c < typeEnd ts c ∧ (IsNamed ts .classLike (typeEnd ts c) ∨ typeEnd ts c = ts.length) ∧
      ∀ i, c < i → i < typeEnd ts c → ¬ IsNamed ts .classLike i := by
  unfold typeEnd
  cases he : (List.range ts.length).find? fun i => decide (c < i ∧ IsNamed ts .classLike i) with
  | none =>
    rw [List.find?_range_eq_none] at he
    refine ⟨h, Or.inr rfl, fun i hi hl hn => ?_⟩
    simpa [hi, hn] using he i hl
  | some e =>
    rw [List.find?_range_eq_some, decide_eq_true_eq] at he
    refine ⟨he.1.1, Or.inl he.1.2, fun i hi hl hn => ?_⟩
    simpa [hi, hn] using he.2.2 i hl

theorem isTypeSpan_typeEnd {c : Nat} (h : firstType? ts = some c) :
    IsTypeSpan ts c (typeEnd ts c) := by
  obtain ⟨hc, hfirst⟩ := firstType?_eq_some_iff.1 h
  obtain ⟨hlt, hstop, hnext⟩ := typeEnd_spec (lt_length_of_isNamed hc)
  exact ⟨hc, hfirst, hlt, hstop, hnext⟩

theorem IsTypeSpan.le_length {c e : Nat} (h : IsTypeSpan ts c e) : e ≤ ts.length := by
  rcases h.stop with he | he
  · exact Nat.le_of_lt (lt_length_of_isNamed he)
  · exact Nat.le_of_eq he

end Token

/-! ### What one token does -/

/-- What the token at position `k` of a row does to the state, case by case. -/
inductive Move (ts : List Token) (path : Text) (k : Nat) (s : ScanState) : ScanState → Prop
  | namespaceWord (hk : kindAt? ts k = some .namespaceWord) :
      Move ts path k s
        { s with namespaceName := (namespaceAfter? (ts.drop (k + 1))).getD s.namespaceName }
  | typeBlock (hb : IsBlockFor ts .type k) : Move ts path k s { s with typeDoc := textAt? ts k }
  | memberBlock (hb : IsBlockFor ts .member k) :
      Move ts path k s { s with memberDoc := textAt? ts k }
  | firstType (hn : IsNamed ts .classLike k) (hd : s.declaration = none) :
      Move ts path k s
        { s with
          typeDoc := none
          declaration := some ⟨s.namespaceName, (nameAt? ts k).getD [], s.typeDoc, [], path⟩ }
  | nextType (hn : IsNamed ts .classLike k) (hd : s.declaration.isSome) :
      Move ts path k s { s with finished := true }
  | member (hn : IsNamed ts .functionWord k) (hi : s.insideType = true) :
      Move ts path k s
        { s with
          memberDoc := none
          declaration := s.declaration.map fun d =>
            { d with members := d.members ++ [⟨(nameAt? ts k).getD [], s.memberDoc⟩] } }
  | outerFunction (hk : kindAt? ts k = some .functionWord) (hi : s.insideType = false) :
      Move ts path k s { s with memberDoc := none }
  | idle (dropped : List Nat) (hk : kindAt? ts k ≠ some .namespaceWord)
      (hb : ∀ target, ¬ IsBlockFor ts target k) (hn : ¬ IsNamed ts .classLike k)
      (hf : kindAt? ts k = some .functionWord →
        s.insideType = true ∧ ¬ IsNamed ts .functionWord k) :
      Move ts path k s { s with dropped := dropped }

section Step

variable {ts : List Token} {k : Nat} {t : Token}

theorem not_isBlockFor_of_kindAt? {kind : TokenKind} (hk : kindAt? ts k = some kind)
    (hne : kind ≠ .docBlock) (target : DocTarget) : ¬ IsBlockFor ts target k :=
  fun h => hne (Option.some.inj (hk.symm.trans h.1))

theorem not_isNamed_of_kindAt? {kind kind' : TokenKind} (hk : kindAt? ts k = some kind)
    (hne : kind ≠ kind') : ¬ IsNamed ts kind' k :=
  fun h => hne (Option.some.inj (hk.symm.trans h.1))

theorem move_takeDoc (path : Text) (s : ScanState) (ht : ts[k]? = some t)
    (hk : t.kind = .docBlock) : Move ts path k s (s.takeDoc t (ts.drop (k + 1))) := by
  have hkind : kindAt? ts k = some .docBlock := hk ▸ kindAt?_eq ht
  unfold ScanState.takeDoc
  rw [← textAt?_eq ht]
  split
  · next h => exact .typeBlock ⟨hkind, h⟩
  · next h => exact .memberBlock ⟨hkind, h⟩
  · next h =>
    refine .idle _ (by simp [hkind]) (fun target hb => ?_)
      (not_isNamed_of_kindAt? hkind (by decide)) (by simp [hkind])
    exact Option.some_ne_none target (hb.2.symm.trans h)

theorem move_takeType (path : Text) (s : ScanState) (ht : ts[k]? = some t)
    (hk : t.kind = .classLike) : Move ts path k s (s.takeType path (ts.drop (k + 1))) := by
  have hkind : kindAt? ts k = some .classLike := hk ▸ kindAt?_eq ht
  unfold ScanState.takeType
  cases hname : nameAfter? (ts.drop (k + 1)) with
  | none =>
    refine .idle _ (by simp [hkind]) (not_isBlockFor_of_kindAt? hkind (by decide)) (fun hn => ?_)
      (by simp [hkind])
    simpa [hname] using ((isNamed_iff ht).1 hn).2
  | some name =>
    have hn : IsNamed ts .classLike k := (isNamed_iff ht).2 ⟨hk, by simp [hname]⟩
    have hat : (nameAt? ts k).getD [] = name := by rw [nameAt?_eq, hname, Option.getD_some]
    dsimp only
    split
    · next hd => exact .nextType hn hd
    · next hd => exact hat ▸ .firstType hn (Option.not_isSome_iff_eq_none.1 hd)

theorem move_takeFunction (path : Text) (s : ScanState) (ht : ts[k]? = some t)
    (hk : t.kind = .functionWord) : Move ts path k s (s.takeFunction (ts.drop (k + 1))) := by
  have hkind : kindAt? ts k = some .functionWord := hk ▸ kindAt?_eq ht
  unfold ScanState.takeFunction
  cases hi : s.insideType with
  | false => exact .outerFunction hkind hi
  | true =>
    cases hname : nameAfter? (ts.drop (k + 1)) with
    | none =>
      refine .idle _ (by simp [hkind]) (not_isBlockFor_of_kindAt? hkind (by decide))
        (not_isNamed_of_kindAt? hkind (by decide)) (fun _ => ⟨hi, fun hn => ?_⟩)
      simpa [hname] using ((isNamed_iff ht).1 hn).2
    | some name =>
      have hn : IsNamed ts .functionWord k := (isNamed_iff ht).2 ⟨hk, by simp [hname]⟩
      have hat : (nameAt? ts k).getD [] = name := by rw [nameAt?_eq, hname, Option.getD_some]
      exact hat ▸ .member hn hi

theorem move_step (path : Text) (s : ScanState) (ht : ts[k]? = some t) :
    Move ts path k s (s.step path t (ts.drop (k + 1))) := by
  unfold ScanState.step
  split
  · next hk => exact .namespaceWord (hk ▸ kindAt?_eq ht)
  · next hk => exact move_takeDoc path s ht hk
  · next hk => exact move_takeType path s ht hk
  · next hk => exact move_takeFunction path s ht hk
  · next h₁ h₂ h₃ h₄ =>
    have hkind := kindAt?_eq ht
    refine .idle _ (fun hk => ?_) (not_isBlockFor_of_kindAt? hkind h₂)
      (not_isNamed_of_kindAt? hkind h₃) (fun hk => ?_)
    · exact h₁ (Option.some.inj (hkind.symm.trans hk))
    · exact absurd (Option.some.inj (hkind.symm.trans hk)) h₄

end Step

/-! ### The state after some tokens -/

/-- The state after the first `k` tokens of a row. -/
def ScanState.after (path : Text) (ts : List Token) : Nat → ScanState
  | 0 => .start
  | k + 1 =>
    match ts[k]? with
    | some t => (ScanState.after path ts k).step path t (ts.drop (k + 1))
    | none => ScanState.after path ts k

section After

variable {path : Text} {ts : List Token} {k c : Nat}

theorem run_after (path : Text) (ts : List Token) (n k : Nat) (h : k + n = ts.length) :
    (ScanState.after path ts k).run path (ts.drop k) = ScanState.after path ts ts.length := by
  induction n generalizing k with
  | zero => rw [List.drop_eq_nil_of_le (by omega), ← h]; rfl
  | succ n ih =>
    have hk : k < ts.length := by omega
    rw [List.drop_eq_getElem_cons hk, ScanState.run, ← ih (k + 1) (by omega), ScanState.after,
      List.getElem?_eq_getElem hk]

theorem declaration_extract_eq_after (path : Text) (ts : List Token) :
    (extract path ts).declaration = (ScanState.after path ts ts.length).declaration :=
  congrArg ScanState.declaration (run_after path ts ts.length 0 (by omega))

theorem move_after (path : Text) (hk : k < ts.length) :
    Move ts path k (ScanState.after path ts k) (ScanState.after path ts (k + 1)) := by
  have ht := List.getElem?_eq_getElem hk
  rw [ScanState.after, ht]
  exact move_step path _ ht

end After

/-! ### The two invariants -/

/-- What holds of the state `s` after `k` tokens, when no named type is among them. -/
structure BeforeType (ts : List Token) (c k : Nat) (s : ScanState) : Prop where
  declaration : s.declaration = none
  finished : s.finished = false
  typeDoc : s.typeDoc = (typeBlock? ts k).bind (textAt? ts)
  memberDoc : s.memberDoc = (memberBlock? ts c k).bind (textAt? ts)
  namespaceName : (∃ t ∈ ts.drop k, t.isTrivia = false) → s.namespaceName = namespaceBefore ts k

/-- What holds of the state `s` after `k` tokens, when the first named type among them is the only
one and stands at `c`. -/
structure InsideType (ts : List Token) (path : Text) (c k : Nat) (s : ScanState) : Prop where
  declaration : s.declaration = some (declarationAt ts path c k)
  finished : s.finished = false
  memberDoc : s.memberDoc = (memberBlock? ts c k).bind (textAt? ts)

section Invariants

variable {path : Text} {ts : List Token} {k c : Nat} {s s' : ScanState}

theorem not_resets_of_kindAt? (hk : kindAt? ts k ≠ some .functionWord) : ¬ Resets ts c k :=
  fun h => hk h.1

theorem Token.IsBlockFor.target_eq {target target' : DocTarget} (h : IsBlockFor ts target k)
    (h' : IsBlockFor ts target' k) : target = target' :=
  Option.some.inj (h.2.symm.trans h'.2)

/-- The block that waits for a member, one token further. -/
theorem Move.memberDoc_eq (hm : Move ts path k s s')
    (h : s.memberDoc = (memberBlock? ts c k).bind (textAt? ts))
    (hi : kindAt? ts k = some .functionWord → (s.insideType = false ↔ k < c)) :
    s'.memberDoc = (memberBlock? ts c (k + 1)).bind (textAt? ts) := by
  have keep (hb : ¬ IsBlockFor ts .member k) (hr : ¬ Resets ts c k) :
      s.memberDoc = (memberBlock? ts c (k + 1)).bind (textAt? ts) := by
    rw [memberBlock?_succ_of_neither hb hr, h]
  cases hm with
  | namespaceWord hk =>
    exact keep (not_isBlockFor_of_kindAt? hk (by decide) _) (not_resets_of_kindAt? (by simp [hk]))
  | typeBlock hb =>
    refine keep (fun hb' => ?_) (not_resets_of_kindAt? (by simp [hb.1]))
    exact absurd (hb.target_eq hb') (by decide)
  | memberBlock hb => rw [memberBlock?_succ_of_block hb, Option.bind_some]
  | firstType hn =>
    exact keep (not_isBlockFor_of_kindAt? hn.1 (by decide) _)
      (not_resets_of_kindAt? (by simp [hn.1]))
  | nextType hn =>
    exact keep (not_isBlockFor_of_kindAt? hn.1 (by decide) _)
      (not_resets_of_kindAt? (by simp [hn.1]))
  | member hn => rw [memberBlock?_succ_of_resets ⟨hn.1, Or.inr hn⟩, Option.bind_none]
  | outerFunction hk hf =>
    rw [memberBlock?_succ_of_resets ⟨hk, Or.inl ((hi hk).1 hf)⟩, Option.bind_none]
  | idle dropped hk hb hn hf =>
    -- A function that is passed over stands in the type and has no name, so it resets nothing.
    refine keep (hb _) (fun hr => ?_)
    obtain ⟨hin, hnot⟩ := hf hr.1
    rcases hr.2 with hlt | hnamed
    · simp [(hi hr.1).2 hlt] at hin
    · exact hnot hnamed

/-- The block that waits for a type, one token further. -/
theorem Move.typeDoc_eq (hm : Move ts path k s s') (hn : ¬ IsNamed ts .classLike k)
    (h : s.typeDoc = (typeBlock? ts k).bind (textAt? ts)) :
    s'.typeDoc = (typeBlock? ts (k + 1)).bind (textAt? ts) := by
  have keep (hb : ¬ IsBlockFor ts .type k) :
      s.typeDoc = (typeBlock? ts (k + 1)).bind (textAt? ts) := by
    rw [typeBlock?, lastBefore?_succ_of_neg hb, h, typeBlock?]
  cases hm with
  | namespaceWord hk => exact keep (not_isBlockFor_of_kindAt? hk (by decide) _)
  | typeBlock hb => rw [typeBlock?, lastBefore?_succ_of_pos hb, Option.bind_some]
  | memberBlock hb => exact keep fun hb' => absurd (hb.target_eq hb') (by decide)
  | firstType hn' => exact absurd hn' hn
  | nextType hn' => exact absurd hn' hn
  | member hf => exact keep (not_isBlockFor_of_kindAt? hf.1 (by decide) _)
  | outerFunction hk => exact keep (not_isBlockFor_of_kindAt? hk (by decide) _)
  | idle dropped hk hb => exact keep (hb _)

theorem namespaceBefore_succ_of_pos (hk : kindAt? ts k = some .namespaceWord) :
    namespaceBefore ts (k + 1) = namespaceAt ts k := by
  rw [namespaceBefore, lastBefore?_succ_of_pos hk, Option.map_some, Option.getD_some]

theorem namespaceBefore_succ_of_neg (hk : kindAt? ts k ≠ some .namespaceWord) :
    namespaceBefore ts (k + 1) = namespaceBefore ts k := by
  rw [namespaceBefore, lastBefore?_succ_of_neg hk, namespaceBefore]

/-- Blank space and comments neither end a namespace statement nor are they part of a namespace. -/
theorem filter_takeWhile_dropWhile_isTrivia (ts : List Token) :
    ((ts.dropWhile isTrivia).takeWhile fun t => !t.endsNamespace).filter isNamespacePart =
      (ts.takeWhile fun t => !t.endsNamespace).filter isNamespacePart := by
  induction ts with
  | nil => rfl
  | cons t ts ih =>
    cases ht : t.isTrivia with
    | false => rw [List.dropWhile_cons_of_neg (by simp [ht])]
    | true =>
      have hend : t.endsNamespace = false := by
        unfold isTrivia TokenKind.isTrivia at ht
        unfold endsNamespace
        cases hk : t.kind <;> simp_all
      have hpart : t.isNamespacePart = false := by
        unfold isTrivia TokenKind.isTrivia at ht
        unfold isNamespacePart TokenKind.isWord
        cases hk : t.kind <;> simp_all
      rw [List.dropWhile_cons_of_pos ht, ih, List.takeWhile_cons_of_pos (by simp [hend]),
        List.filter_cons_of_neg (by simp [hpart])]

theorem namespaceAfter?_eq (h : ∃ t ∈ ts.drop (k + 1), t.isTrivia = false) :
    namespaceAfter? (ts.drop (k + 1)) = some (namespaceAt ts k) := by
  obtain ⟨t, ht, hnot⟩ := h
  have hne : (ts.drop (k + 1)).dropWhile isTrivia ≠ [] := by
    rw [Ne, List.dropWhile_eq_nil_iff]
    exact fun hall => by simp [hall t ht] at hnot
  unfold namespaceAfter?
  split
  · next h => exact absurd h hne
  · rw [namespaceAt, filter_takeWhile_dropWhile_isTrivia]

theorem beforeType_start : BeforeType ts c 0 .start where
  declaration := rfl
  finished := rfl
  typeDoc := rfl
  memberDoc := rfl
  namespaceName _ := rfl

theorem BeforeType.move (h : BeforeType ts c k s) (hm : Move ts path k s s') (hk : k < c)
    (hn : ¬ IsNamed ts .classLike k) : BeforeType ts c (k + 1) s' where
  declaration := by
    have hd := h.declaration
    cases hm with
    | firstType hn' => exact absurd hn' hn
    | member hn' hi => simp [hd]
    | _ => exact hd
  finished := by
    cases hm with
    | nextType hn' => exact absurd hn' hn
    | _ => exact h.finished
  typeDoc := hm.typeDoc_eq hn h.typeDoc
  memberDoc := by
    refine hm.memberDoc_eq h.memberDoc fun _ => iff_of_true ?_ hk
    simp [ScanState.insideType, h.declaration]
  namespaceName hex := by
    have hex' : ∃ t ∈ ts.drop k, t.isTrivia = false :=
      hex.imp fun t ht => ⟨List.drop_subset_drop_left ts (Nat.le_succ k) ht.1, ht.2⟩
    have keep (hne : kindAt? ts k ≠ some .namespaceWord) :
        s.namespaceName = namespaceBefore ts (k + 1) := by
      rw [namespaceBefore_succ_of_neg hne, h.namespaceName hex']
    cases hm with
    | namespaceWord hw =>
      rw [namespaceBefore_succ_of_pos hw, namespaceAfter?_eq hex, Option.getD_some]
    | typeBlock hb => exact keep (by simp [hb.1])
    | memberBlock hb => exact keep (by simp [hb.1])
    | firstType hn' => exact keep (by simp [hn'.1])
    | nextType hn' => exact keep (by simp [hn'.1])
    | member hn' => exact keep (by simp [hn'.1])
    | outerFunction hw => exact keep (by simp [hw])
    | idle dropped hw => exact keep hw

/-- The first named type opens the declaration. -/
theorem BeforeType.open (h : BeforeType ts c c s) (hm : Move ts path c s s')
    (hn : IsNamed ts .classLike c) : InsideType ts path c (c + 1) s' := by
  have hmem := hm.memberDoc_eq h.memberDoc fun hk => by simp [hn.1] at hk
  cases hm with
  | firstType _ hd =>
    refine ⟨?_, h.finished, hmem⟩
    have hlt := lt_length_of_isNamed hn
    have hkind : ts[c].kind = .classLike :=
      Option.some.inj ((kindAt?_eq (List.getElem?_eq_getElem hlt)).symm.trans hn.1)
    have hex : ∃ t ∈ ts.drop c, t.isTrivia = false := by
      refine ⟨ts[c], ?_, by rw [isTrivia, hkind]; rfl⟩
      rw [List.drop_eq_getElem_cons hlt]
      exact List.mem_cons_self
    simp only [declarationAt, functionsBetween_of_le le_rfl, List.map_nil, h.typeDoc,
      h.namespaceName hex]
  | namespaceWord hk => simp [hn.1] at hk
  | typeBlock hb => exact absurd hb (not_isBlockFor_of_kindAt? hn.1 (by decide) _)
  | memberBlock hb => exact absurd hb (not_isBlockFor_of_kindAt? hn.1 (by decide) _)
  | nextType _ hd => simp [h.declaration] at hd
  | member hf => exact absurd (hn.1.symm.trans hf.1) (by decide)
  | outerFunction hk => simp [hn.1] at hk
  | idle dropped hk hb hn' => exact absurd hn hn'

theorem declarationAt_succ_of_pos (hc : c < k) (hn : IsNamed ts .functionWord k) :
    declarationAt ts path c (k + 1) =
      { declarationAt ts path c k with
        members := (declarationAt ts path c k).members ++ [memberAt ts c k] } := by
  simp only [declarationAt, functionsBetween_succ, if_pos (And.intro hc hn), List.map_append,
    List.map_cons, List.map_nil]

theorem declarationAt_succ_of_neg (hn : ¬ IsNamed ts .functionWord k) :
    declarationAt ts path c (k + 1) = declarationAt ts path c k := by
  simp only [declarationAt, functionsBetween_succ, if_neg (fun h => hn (And.right h)),
    List.append_nil]

/-- A token that names no type leaves the state inside the type. -/
theorem InsideType.move (h : InsideType ts path c k s) (hm : Move ts path k s s') (hc : c < k)
    (hn : ¬ IsNamed ts .classLike k) : InsideType ts path c (k + 1) s' := by
  have hin : s.insideType = true := by simp [ScanState.insideType, h.declaration, h.finished]
  have hmem := hm.memberDoc_eq h.memberDoc fun _ => iff_of_false (by simp [hin]) (by omega)
  have keep (hf : ¬ IsNamed ts .functionWord k) :
      s.declaration = some (declarationAt ts path c (k + 1)) := by
    rw [declarationAt_succ_of_neg hf, h.declaration]
  cases hm with
  | namespaceWord hk => exact ⟨keep (not_isNamed_of_kindAt? hk (by decide)), h.finished, hmem⟩
  | typeBlock hb => exact ⟨keep (not_isNamed_of_kindAt? hb.1 (by decide)), h.finished, hmem⟩
  | memberBlock hb => exact ⟨keep (not_isNamed_of_kindAt? hb.1 (by decide)), h.finished, hmem⟩
  | firstType hn' => exact absurd hn' hn
  | nextType hn' => exact absurd hn' hn
  | member hf =>
    refine ⟨?_, h.finished, hmem⟩
    simp only [h.declaration, Option.map_some, declarationAt_succ_of_pos hc hf, h.memberDoc,
      memberAt]
  | outerFunction hk hi => simp [hin] at hi
  | idle dropped hk hb hn' hf =>
    exact ⟨keep fun hf' => (hf hf'.1).2 hf', h.finished, hmem⟩

/-- The next named type settles the declaration. -/
theorem InsideType.close (h : InsideType ts path c k s) (hm : Move ts path k s s')
    (hn : IsNamed ts .classLike k) :
    s'.declaration = some (declarationAt ts path c k) ∧ s'.finished = true := by
  cases hm with
  | nextType => exact ⟨h.declaration, rfl⟩
  | firstType _ hd => simp [h.declaration] at hd
  | namespaceWord hk => simp [hn.1] at hk
  | typeBlock hb => exact absurd hb (not_isBlockFor_of_kindAt? hn.1 (by decide) _)
  | memberBlock hb => exact absurd hb (not_isBlockFor_of_kindAt? hn.1 (by decide) _)
  | member hf => exact absurd (hn.1.symm.trans hf.1) (by decide)
  | outerFunction hk => simp [hn.1] at hk
  | idle dropped hk hb hn' => exact absurd hn hn'

/-- A settled declaration stays. -/
theorem Move.settled {d : Declaration} (hm : Move ts path k s s') (hd : s.declaration = some d)
    (hf : s.finished = true) : s'.declaration = some d ∧ s'.finished = true := by
  cases hm with
  | firstType _ hd' => simp [hd] at hd'
  | nextType => exact ⟨hd, rfl⟩
  | member _ hi => simp [ScanState.insideType, hf] at hi
  | _ => exact ⟨hd, hf⟩

end Invariants

/-! ### Whole runs -/

section Runs

variable (path : Text) {ts : List Token} {c e : Nat}

/-- As long as no named type has come, the state is in front of one. -/
theorem beforeType_after (k : Nat) (hk : k ≤ c) (hkl : k ≤ ts.length)
    (hn : ∀ i, i < k → ¬ IsNamed ts .classLike i) :
    BeforeType ts c k (ScanState.after path ts k) := by
  induction k with
  | zero => exact beforeType_start
  | succ k ih =>
    have h := ih (by omega) (by omega) fun i hi => hn i (by omega)
    exact h.move (move_after path (by omega)) (by omega) (hn k (by omega))

/-- From the first named type up to the next one, the state is inside it. -/
theorem insideType_after (hs : IsTypeSpan ts c e) (k : Nat) (hc : c < k) (hk : k ≤ e) :
    InsideType ts path c k (ScanState.after path ts k) := by
  have hle := hs.le_length
  induction k with
  | zero => omega
  | succ k ih =>
    have hm : Move ts path k _ _ := move_after path (by omega)
    by_cases hkc : k = c
    · subst hkc
      exact (beforeType_after path k (by omega) (by omega) hs.first).open hm hs.named
    · exact (ih (by omega) (by omega)).move hm (by omega) (hs.next k (by omega) (by omega))

/-- After the type, its declaration stays. -/
theorem declaration_after (hs : IsTypeSpan ts c e) (k : Nat) (hk : e ≤ k) (hkl : k ≤ ts.length) :
    (ScanState.after path ts k).declaration = some (declarationAt ts path c e) ∧
      (e < k → (ScanState.after path ts k).finished = true) := by
  induction k with
  | zero =>
    have := hs.lt
    omega
  | succ k ih =>
    by_cases hke : e = k + 1
    · subst hke
      exact ⟨(insideType_after path hs _ hs.lt le_rfl).declaration, fun h => absurd h (by omega)⟩
    · have hm : Move ts path k _ _ := move_after path (by omega)
      obtain ⟨hd, hf⟩ := ih (by omega) (by omega)
      by_cases hek : e = k
      · subst hek
        have hn : IsNamed ts .classLike e := hs.stop.resolve_right (by omega)
        obtain ⟨hd', hf'⟩ := (insideType_after path hs e hs.lt le_rfl).close hm hn
        exact ⟨hd', fun _ => hf'⟩
      · obtain ⟨hd', hf'⟩ := hm.settled hd (hf (by omega))
        exact ⟨hd', fun _ => hf'⟩

theorem declaration_extract_of_isTypeSpan (hs : IsTypeSpan ts c e) :
    (extract path ts).declaration = some (declarationAt ts path c e) := by
  rw [declaration_extract_eq_after]
  exact (declaration_after path hs ts.length hs.le_length le_rfl).1

theorem declaration_extract_of_not_isNamed (hn : ∀ i, ¬ IsNamed ts .classLike i) :
    (extract path ts).declaration = none := by
  rw [declaration_extract_eq_after]
  exact (beforeType_after path ts.length le_rfl le_rfl fun i _ => hn i).declaration

end Runs

/-- The pass over a row of tokens finds the declaration that the positions of its named types,
named functions, namespace statements and documentation blocks describe. -/
theorem declaration_extract (path : Text) (ts : List Token) :
    (extract path ts).declaration = described? ts path := by
  unfold described?
  cases hc : firstType? ts with
  | none => exact declaration_extract_of_not_isNamed path (firstType?_eq_none_iff.1 hc)
  | some c => exact declaration_extract_of_isTypeSpan path (isTypeSpan_typeEnd hc)

/-- A row declares something exactly if some type in it is named. The declaration is that of the
first named type: its namespace is the one declared last in front of it, and its members are the
named functions between it and the next named type. -/
theorem extract_outline (path : Text) (ts : List Token) :
    ((extract path ts).declaration = none ↔ ∀ i, ¬ IsNamed ts .classLike i) ∧
      ∀ d, (extract path ts).declaration = some d →
        ∃ c e, IsTypeSpan ts c e ∧
          nameAt? ts c = some d.typeName ∧
          d.namespaceName = namespaceBefore ts c ∧
          d.members.map (fun m => some m.name) = (functionsBetween ts c e).map (nameAt? ts) := by
  rw [declaration_extract]
  constructor
  · rw [described?, Option.map_eq_none_iff, firstType?_eq_none_iff]
  · intro d hd
    obtain ⟨c, hc, rfl⟩ := Option.map_eq_some_iff.1 hd
    have hs := isTypeSpan_typeEnd hc
    refine ⟨c, typeEnd ts c, hs, ?_, rfl, ?_⟩
    · obtain ⟨name, hname⟩ := Option.isSome_iff_exists.1 hs.named.2
      simp only [declarationAt, hname, Option.getD_some]
    · rw [declarationAt, List.map_map]
      refine List.map_congr_left fun f hf => ?_
      obtain ⟨name, hname⟩ := Option.isSome_iff_exists.1 (mem_functionsBetween.1 hf).2.2.2
      simp only [Function.comp_apply, memberAt, hname, Option.getD_some]

theorem extract_outline_mixedRow :
    (extract [] mixedRow).declaration =
        some ⟨"App".toList, "Tool".toList, some "/** Tool. */".toList,
          [⟨"run".toList, none⟩, ⟨"stop".toList, some "/** Stops. */".toList⟩], []⟩ ∧
      ∃ c e, IsTypeSpan mixedRow c e ∧
        nameAt? mixedRow c = some "Tool".toList ∧
        "App".toList = namespaceBefore mixedRow c ∧
        [some "run".toList, some "stop".toList] =
          (functionsBetween mixedRow c e).map (nameAt? mixedRow) :=
  ⟨rfl, (extract_outline [] mixedRow).2 _ rfl⟩

end DocPages
