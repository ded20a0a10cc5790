import DocPages.Proofs.Declaration.Attachment
import DocPages.Proofs.Token.Rekind
import Mathlib

/-!
# Blocks in front of nameless constructs

A documentation block may stand in front of the keyword of an anonymous class or of a closure
(`IsNamelessBlock`). The pass does not drop it there: it waits, and the next construct with a name
takes it. What the block does is what is lost when it is an ordinary comment (`asComment`): the block
that waited before it comes in its place (`typeBlock?_asComment`, `memberBlock?_asComment`), and
nothing else changes, as long as no keyword reads its name past the comment (`IsStoppedBy`).

Main statement: `declaration_asComment_nameless`.
-/

namespace DocPages

/-- The kind of the keyword that a block for a target waits for. -/
def DocTarget.keyword : DocTarget → TokenKind
  | .type => .classLike
  | .member => .functionWord

namespace Token

variable (ts : List Token)

/-- The row in which the token at a position is an ordinary comment. -/
def asComment (b : Nat) : List Token := ts.modify b fun t => { t with kind := .comment }

/-- At position `i` stands the keyword of a type or a function. -/
def Declares (i : Nat) : Prop := kindAt? ts i = some .classLike ∨ kindAt? ts i = some .functionWord

/-- The documentation block at `b` stands in front of the keyword at `j` of an anonymous class or a
closure. -/
structure IsNamelessBlock (b j : Nat) : Prop where
  block : kindAt? ts b = some .docBlock
  next : nextSignificant? isTargetGap (b + 1) ts = some j
  keyword : Declares ts j
  nameless : nameAt? ts j = none

/-- The keyword at `i` has no name because the token at `b` stands where the name would be. -/
structure IsStoppedBy (i b : Nat) : Prop where
  keyword : Declares ts i
  next : nextSignificant? isNameGap (i + 1) ts = some b

/-- The block at `b` documents the type of the row or one of its members. -/
def Documents (b : Nat) : Prop :=
  ∃ c e, IsTypeSpan ts c e ∧ (typeBlock? ts c = some b ∨ b ∈ memberBlocks ts c e)

variable {ts} {target : DocTarget} {b c e f i j : Nat}

/-! ### Looking ahead -/

theorem getElem?_asComment_of_ne (h : i ≠ b) : (asComment ts b)[i]? = ts[i]? := by
  simp [asComment, h.symm]

theorem textAt?_asComment : textAt? (asComment ts b) = textAt? ts := by
  funext i
  by_cases h : i = b
  · subst h
    simp [textAt?, asComment, Function.comp_def]
  · rw [textAt?, textAt?, getElem?_asComment_of_ne h]

theorem length_asComment : (asComment ts b).length = ts.length := List.length_modify _ _ _

/-- A name is looked for past a comment; so the name that is found is the same unless the block ends
the search. -/
theorem nameAfter?_asComment (h : (ts.findIdx? fun t => !t.isNameGap) ≠ some b) :
    nameAfter? (asComment ts b) = nameAfter? ts := by
  induction ts generalizing b with
  | nil => rw [asComment, List.modify_nil]
  | cons t ts ih =>
    rw [List.findIdx?_cons] at h
    cases b with
    | zero =>
      cases hgap : t.isNameGap with
      | true =>
        rw [asComment, List.modify_zero_cons, nameAfter?_cons, nameAfter?_cons, hgap]
        rfl
      | false => simp [hgap] at h
    | succ b =>
      rw [asComment, List.modify_succ_cons, nameAfter?_cons, nameAfter?_cons, ← asComment]
      cases hgap : t.isNameGap with
      | true =>
        rw [if_pos rfl, if_pos rfl]
        exact ih fun hb => h (by simp [hgap, hb])
      | false => rfl

/-- A name that the block has stopped is found behind the comment. -/
theorem nameAfter?_asComment_self (h : (ts.findIdx? fun t => !t.isNameGap) = some b) :
    nameAfter? (asComment ts b) = nameAfter? (ts.drop (b + 1)) := by
  induction ts generalizing b with
  | nil => simp at h
  | cons t ts ih =>
    rw [List.findIdx?_cons] at h
    cases hgap : t.isNameGap with
    | true =>
      simp only [hgap, Bool.not_true, Bool.false_eq_true, if_false, Option.map_eq_some_iff] at h
      obtain ⟨b, hb, rfl⟩ := h
      rw [asComment, List.modify_succ_cons, nameAfter?_cons, if_pos hgap, ← asComment, ih hb,
        List.drop_succ_cons]
    | false =>
      obtain rfl : 0 = b := by simpa [hgap] using h
      rw [asComment, List.modify_zero_cons, nameAfter?_cons, List.drop_one, List.tail_cons]
      rfl

theorem targetAfter?_cons (t : Token) (ts : List Token) :
    targetAfter? (t :: ts) = if t.isTargetGap then targetAfter? ts else targetAfter? [t] := by
  unfold targetAfter? firstSignificant?
  cases ht : t.isTargetGap <;> simp [ht]

/-- Neither a block nor a comment is looked past, and neither is a target. -/
theorem targetAfter?_asComment (hb : kindAt? ts b = some .docBlock) :
    targetAfter? (asComment ts b) = targetAfter? ts := by
  induction ts generalizing b with
  | nil => simp [kindAt?] at hb
  | cons t ts ih =>
    cases b with
    | zero =>
      have hk : t.kind = .docBlock := Option.some.inj hb
      rw [asComment, List.modify_zero_cons]
      simp [targetAfter?, firstSignificant?, isTargetGap, hk]
    | succ b =>
      have hb' : kindAt? ts b = some .docBlock := hb
      rw [asComment, List.modify_succ_cons, ← asComment, targetAfter?_cons t (asComment ts b),
        targetAfter?_cons t ts, ih hb']

/-- Neither a block nor a comment is part of a namespace. -/
theorem namespaceParts_asComment (hb : kindAt? ts b = some .docBlock) :
    ((asComment ts b).takeWhile fun t => !t.endsNamespace).filter isNamespacePart =
      (ts.takeWhile fun t => !t.endsNamespace).filter isNamespacePart := by
  induction ts generalizing b with
  | nil => simp [kindAt?] at hb
  | cons t ts ih =>
    cases b with
    | zero =>
      have hk : t.kind = .docBlock := Option.some.inj hb
      rw [asComment, List.modify_zero_cons, List.takeWhile_cons_of_pos, List.takeWhile_cons_of_pos,
        List.filter_cons_of_neg, List.filter_cons_of_neg]
      all_goals simp [isNamespacePart, endsNamespace, TokenKind.isWord, hk]
    | succ b =>
      have hb' : kindAt? ts b = some .docBlock := hb
      rw [asComment, List.modify_succ_cons, ← asComment, List.takeWhile_cons, List.takeWhile_cons]
      cases hend : t.endsNamespace with
      | true => rfl
      | false =>
        simp only [Bool.not_false, if_true, List.filter_cons, ih hb']

/-! ### One position -/

theorem drop_asComment_of_le (h : b ≤ i) : (asComment ts b).drop (i + 1) = ts.drop (i + 1) :=
  List.drop_modify_of_lt _ _ _ _ (by omega)

theorem drop_asComment_of_lt (h : i < b) :
    (asComment ts b).drop (i + 1) = asComment (ts.drop (i + 1)) (b - (i + 1)) :=
  List.drop_modify_of_ge _ _ _ _ h

theorem kindAt?_drop (h : i < b) : kindAt? (ts.drop (i + 1)) (b - (i + 1)) = kindAt? ts b := by
  rw [kindAt?, List.getElem?_drop, Nat.add_sub_cancel' h, kindAt?]

/-- The keyword at `i` has the name that it had, unless the block stands where its name would be. -/
theorem nameAt?_asComment (h : nextSignificant? isNameGap (i + 1) ts ≠ some b) :
    nameAt? (asComment ts b) i = nameAt? ts i := by
  rw [nameAt?_eq, nameAt?_eq]
  by_cases hib : i < b
  · rw [drop_asComment_of_lt hib]
    apply nameAfter?_asComment
    intro hfound
    rw [nextSignificant?, hfound, Option.map_some, Nat.add_sub_cancel' hib] at h
    exact h rfl
  · rw [drop_asComment_of_le (by omega)]

theorem nameAt?_asComment_of_declares (hfree : ∀ i, ¬ IsStoppedBy ts i b) (hi : Declares ts i) :
    nameAt? (asComment ts b) i = nameAt? ts i :=
  nameAt?_asComment fun h => hfree i ⟨hi, h⟩

theorem IsStoppedBy.nameAt?_eq_none (h : IsStoppedBy ts i b) (hb : kindAt? ts b = some .docBlock) :
    nameAt? ts i = none := by
  obtain ⟨t, ht, hk⟩ := Option.map_eq_some_iff.1 hb
  rw [nameAt?, h.next, Option.bind_some, ht, Option.bind_some, hk]
  rfl

/-- A keyword that the block has stopped takes the name behind it. -/
theorem IsStoppedBy.nameAt?_asComment (h : IsStoppedBy ts i b) :
    nameAt? (asComment ts b) i = nameAt? ts b := by
  obtain ⟨n, hn, hb⟩ := Option.map_eq_some_iff.1 h.next
  obtain rfl : n = b - (i + 1) := by omega
  have hib : i < b := by omega
  rw [nameAt?_eq, nameAt?_eq, drop_asComment_of_lt hib, nameAfter?_asComment_self hn, List.drop_drop]
  congr 2
  omega

section AsComment

variable (hb : kindAt? ts b = some .docBlock)
include hb

theorem kindAt?_asComment_iff {k : TokenKind} (hk : k ≠ .comment) :
    kindAt? (asComment ts b) i = some k ↔ i ≠ b ∧ kindAt? ts i = some k := by
  by_cases hib : i = b
  · subst hib
    obtain ⟨t, ht, -⟩ := Option.map_eq_some_iff.1 hb
    have hcomment : kindAt? (asComment ts i) i = some .comment := by
      simp [kindAt?, asComment, ht]
    rw [hcomment, Option.some.injEq]
    exact iff_of_false (Ne.symm hk) fun h => h.1 rfl
  · rw [kindAt?, getElem?_asComment_of_ne hib, ← kindAt?, and_iff_right hib]

/-- At a position with another kind, nothing changes. -/
theorem kindAt?_asComment_iff_of_ne {k : TokenKind} (hk : k ≠ .comment) (hne : k ≠ .docBlock) :
    kindAt? (asComment ts b) i = some k ↔ kindAt? ts i = some k := by
  rw [kindAt?_asComment_iff hb hk]
  refine and_iff_right_of_imp ?_
  rintro h rfl
  exact hne (Option.some.inj (h.symm.trans hb))

theorem targetAfter?_drop_asComment :
    targetAfter? ((asComment ts b).drop (i + 1)) = targetAfter? (ts.drop (i + 1)) := by
  by_cases hib : i < b
  · rw [drop_asComment_of_lt hib, targetAfter?_asComment (by rw [kindAt?_drop hib, hb])]
  · rw [drop_asComment_of_le (by omega)]

theorem isBlockFor_asComment_iff :
    IsBlockFor (asComment ts b) target i ↔ i ≠ b ∧ IsBlockFor ts target i := by
  rw [IsBlockFor, IsBlockFor, kindAt?_asComment_iff hb (by decide), targetAfter?_drop_asComment hb,
    and_assoc]

theorem namespaceAt_asComment : namespaceAt (asComment ts b) i = namespaceAt ts i := by
  rw [namespaceAt, namespaceAt]
  by_cases hib : i < b
  · rw [drop_asComment_of_lt hib, namespaceParts_asComment (by rw [kindAt?_drop hib, hb])]
  · rw [drop_asComment_of_le (by omega)]

theorem namespaceBefore_asComment : namespaceBefore (asComment ts b) c = namespaceBefore ts c := by
  have hlast : statementBefore? (asComment ts b) c = statementBefore? ts c :=
    lastBefore?_congr fun i _ => kindAt?_asComment_iff_of_ne hb (by decide) (by decide)
  have hat : namespaceAt (asComment ts b) = namespaceAt ts := funext fun i => namespaceAt_asComment hb
  rw [namespaceBefore_eq, namespaceBefore_eq, hlast, hat]

theorem typeBlock?_asComment :
    typeBlock? (asComment ts b) c =
      if typeBlock? ts c = some b then typeBlock? ts b else typeBlock? ts c := by
  have hiff : ∀ i, i < c → (IsBlockFor (asComment ts b) .type i ↔ i ≠ b ∧ IsBlockFor ts .type i) :=
    fun i _ => isBlockFor_asComment_iff hb
  split
  · next h => exact lastBefore?_of_ne h hiff
  · next h => exact lastBefore?_eq_of_ne h hiff

end AsComment

/-! ### Blocks without the one at a position -/

/-- A list in which one element is mapped to something else. -/
theorem exists_map_eq_of_nodup {α β : Type} {l : List α} {f g : α → β} {a : α} (hl : l.Nodup)
    (ha : a ∈ l) (h : ∀ x ∈ l, x ≠ a → g x = f x) :
    ∃ before after, l.map f = before ++ f a :: after ∧ l.map g = before ++ g a :: after := by
  obtain ⟨front, back, rfl⟩ := List.append_of_mem ha
  obtain ⟨-, hback, hfront⟩ := List.nodup_append.1 hl
  refine ⟨front.map f, back.map f, by rw [List.map_append, List.map_cons], ?_⟩
  rw [List.map_append, List.map_cons]
  congr 1
  · refine List.map_congr_left fun x hx => h x (List.mem_append_left _ hx) ?_
    exact hfront x hx a List.mem_cons_self
  · congr 1
    refine List.map_congr_left fun x hx =>
      h x (List.mem_append_right _ (List.mem_cons_of_mem _ hx)) ?_
    rintro rfl
    exact (List.nodup_cons.1 hback).1 hx

theorem not_mem_memberBlocks_of_typeBlock? (h : typeBlock? ts c = some b) :
    b ∉ memberBlocks ts c e := fun hm =>
  (List.nodup_append.1 (nodup_typeBlock?_memberBlocks ts c e)).2.2 b (Option.mem_toList.2 h) b hm rfl

/-- A block documents one function only. -/
theorem eq_of_memberBlock? {g : Nat} (hf : f ∈ functionsBetween ts c e)
    (hg : g ∈ functionsBetween ts c e) (hfb : memberBlock? ts c f = some b)
    (hgb : memberBlock? ts c g = some b) : f = g := by
  have hfn := (mem_functionsBetween.1 hf).2.2
  have hgn := (mem_functionsBetween.1 hg).2.2
  have hlf := (memberBlock?_eq_some_iff.1 hfb).1.1
  have hlg := (memberBlock?_eq_some_iff.1 hgb).1.1
  rcases Nat.lt_trichotomy f g with hlt | heq | hgt
  · have := le_of_memberBlock? ⟨hfn.1, Or.inr hfn⟩ hlt hgb
    omega
  · exact heq
  · have := le_of_memberBlock? ⟨hgn.1, Or.inr hgn⟩ hgt hfb
    omega

section Free

variable (path : Text) (hb : kindAt? ts b = some .docBlock) (hfree : ∀ i, ¬ IsStoppedBy ts i b)
include hb hfree

theorem isNamed_asComment_iff {k : TokenKind} (hk : k = .classLike ∨ k = .functionWord) :
    IsNamed (asComment ts b) k i ↔ IsNamed ts k i := by
  have hne : k ≠ .comment ∧ k ≠ .docBlock := by rcases hk with rfl | rfl <;> decide
  rw [IsNamed, IsNamed, kindAt?_asComment_iff_of_ne hb hne.1 hne.2]
  refine and_congr_right fun hi => ?_
  have hd : Declares ts i := by
    rcases hk with rfl | rfl
    · exact Or.inl hi
    · exact Or.inr hi
  rw [nameAt?_asComment_of_declares hfree hd]

theorem isNamed_classLike_asComment_iff :
    IsNamed (asComment ts b) .classLike i ↔ IsNamed ts .classLike i :=
  isNamed_asComment_iff hb hfree (Or.inl rfl)

theorem isNamed_functionWord_asComment_iff :
    IsNamed (asComment ts b) .functionWord i ↔ IsNamed ts .functionWord i :=
  isNamed_asComment_iff hb hfree (Or.inr rfl)

theorem isTypeSpan_asComment (hs : IsTypeSpan ts c e) : IsTypeSpan (asComment ts b) c e where
  named := (isNamed_classLike_asComment_iff hb hfree).2 hs.named
  first i hi hn := hs.first i hi ((isNamed_classLike_asComment_iff hb hfree).1 hn)
  lt := hs.lt
  stop := by
    rw [isNamed_classLike_asComment_iff hb hfree, length_asComment]
    exact hs.stop
  next i hi hie hn := hs.next i hi hie ((isNamed_classLike_asComment_iff hb hfree).1 hn)

theorem functionsBetween_asComment :
    functionsBetween (asComment ts b) c e = functionsBetween ts c e := by
  refine List.filter_congr fun i _ => decide_eq_decide.2 ?_
  rw [isNamed_functionWord_asComment_iff hb hfree]

theorem resets_asComment_iff : Resets (asComment ts b) c i ↔ Resets ts c i := by
  rw [Resets, Resets, isNamed_functionWord_asComment_iff hb hfree,
    kindAt?_asComment_iff_of_ne hb (by decide) (by decide)]

theorem memberBlock?_asComment :
    memberBlock? (asComment ts b) c f =
      if memberBlock? ts c f = some b then memberBlock? ts c b else memberBlock? ts c f := by
  induction f with
  | zero => rfl
  | succ k ih =>
    have hresets : Resets (asComment ts b) c k ↔ Resets ts c k := resets_asComment_iff hb hfree
    by_cases hr : Resets ts c k
    · rw [memberBlock?_succ_of_resets hr, memberBlock?_succ_of_resets (hresets.2 hr)]
      rfl
    by_cases hk : IsBlockFor ts .member k
    · by_cases hkb : k = b
      · -- Here the comment stands, so the block that waited goes on waiting.
        subst hkb
        have hnot : memberBlock? ts c k ≠ some k := fun h =>
          absurd (memberBlock?_eq_some_iff.1 h).1.1 (Nat.lt_irrefl k)
        rw [if_neg hnot] at ih
        rw [memberBlock?_succ_of_block hk, if_pos rfl, ← ih]
        refine memberBlock?_succ_of_neither (fun h => ?_) fun h => hr (hresets.1 h)
        exact ((isBlockFor_asComment_iff hb).1 h).1 rfl
      · rw [memberBlock?_succ_of_block hk, if_neg fun h => hkb (Option.some.inj h)]
        exact memberBlock?_succ_of_block ((isBlockFor_asComment_iff hb).2 ⟨hkb, hk⟩)
    · rw [memberBlock?_succ_of_neither hk hr, ← ih]
      refine memberBlock?_succ_of_neither (fun h => ?_) fun h => hr (hresets.1 h)
      exact hk ((isBlockFor_asComment_iff hb).1 h).2

theorem memberAt_asComment_of_ne (hf : IsNamed ts .functionWord f)
    (h : memberBlock? ts c f ≠ some b) : memberAt (asComment ts b) c f = memberAt ts c f := by
  rw [memberAt, memberAt, nameAt?_asComment_of_declares hfree (Or.inr hf.1),
    memberBlock?_asComment hb hfree, if_neg h, textAt?_asComment]

theorem memberAt_asComment_of_eq (hf : IsNamed ts .functionWord f)
    (h : memberBlock? ts c f = some b) :
    memberAt (asComment ts b) c f =
      { memberAt ts c f with documentation := (memberBlock? ts c b).bind (textAt? ts) } := by
  rw [memberAt, memberAt, nameAt?_asComment_of_declares hfree (Or.inr hf.1),
    memberBlock?_asComment hb hfree, if_pos h, textAt?_asComment]

/-- Where the block documents no member, only the documentation of the type may change. -/
theorem declarationAt_asComment (hs : IsTypeSpan ts c e) (h : b ∉ memberBlocks ts c e) :
    declarationAt (asComment ts b) path c e =
      { declarationAt ts path c e with
        documentation := (typeBlock? (asComment ts b) c).bind (textAt? ts) } := by
  have hmembers : (functionsBetween ts c e).map (memberAt (asComment ts b) c) =
      (functionsBetween ts c e).map (memberAt ts c) := by
    refine List.map_congr_left fun f hf => ?_
    apply memberAt_asComment_of_ne hb hfree (mem_functionsBetween.1 hf).2.2
    exact fun hfb => h (List.mem_filterMap.2 ⟨f, hf, hfb⟩)
  simp only [declarationAt, namespaceBefore_asComment hb, functionsBetween_asComment hb hfree,
    nameAt?_asComment_of_declares hfree (Or.inl hs.named.1), textAt?_asComment, hmembers]

theorem declarationAt_asComment_of_not_documents (hs : IsTypeSpan ts c e) (h : ¬ Documents ts b) :
    declarationAt (asComment ts b) path c e = declarationAt ts path c e := by
  have htype : typeBlock? ts c ≠ some b := fun hc => h ⟨c, e, hs, Or.inl hc⟩
  have hmember : b ∉ memberBlocks ts c e := fun hm => h ⟨c, e, hs, Or.inr hm⟩
  rw [declarationAt_asComment path hb hfree hs hmember, typeBlock?_asComment hb, if_neg htype]
  rfl

theorem declarationAt_asComment_of_typeBlock? (hs : IsTypeSpan ts c e)
    (h : typeBlock? ts c = some b) :
    declarationAt (asComment ts b) path c e =
      { declarationAt ts path c e with
        documentation := (typeBlock? ts b).bind (textAt? ts) } := by
  rw [declarationAt_asComment path hb hfree hs (not_mem_memberBlocks_of_typeBlock? h),
    typeBlock?_asComment hb, if_pos h]

theorem declarationAt_asComment_of_memberBlock? (hs : IsTypeSpan ts c e)
    (hf : f ∈ functionsBetween ts c e) (h : memberBlock? ts c f = some b) :
    ∃ before after,
      declarationAt ts path c e =
        { declarationAt ts path c e with members := before ++ memberAt ts c f :: after } ∧
      declarationAt (asComment ts b) path c e =
        { declarationAt ts path c e with
          members := before ++
            { memberAt ts c f with
              documentation := (memberBlock? ts c b).bind (textAt? ts) } :: after } := by
  have htype : typeBlock? ts c ≠ some b := fun hc =>
    not_mem_memberBlocks_of_typeBlock? hc (List.mem_filterMap.2 ⟨f, hf, h⟩)
  have hnodup : (functionsBetween ts c e).Nodup :=
    (pairwise_functionsBetween ts c e).imp Nat.ne_of_lt
  obtain ⟨before, after, hold, hnew⟩ := exists_map_eq_of_nodup hnodup hf fun g hg hgf =>
    memberAt_asComment_of_ne hb hfree (mem_functionsBetween.1 hg).2.2 fun hgb =>
      hgf (eq_of_memberBlock? hg hf hgb h)
  refine ⟨before, after, ?_, ?_⟩
  · simp only [declarationAt, hold]
  · simp only [declarationAt, namespaceBefore_asComment hb, functionsBetween_asComment hb hfree,
      nameAt?_asComment_of_declares hfree (Or.inl hs.named.1), typeBlock?_asComment hb,
      if_neg htype, textAt?_asComment, hnew,
      memberAt_asComment_of_eq hb hfree (mem_functionsBetween.1 hf).2.2 h]

/-- A block that documents nothing may as well be an ordinary comment. -/
theorem declaration_extract_asComment_of_not_documents (h : ¬ Documents ts b) :
    (extract path (asComment ts b)).declaration = (extract path ts).declaration := by
  cases hc : firstType? ts with
  | none =>
    have hnone := firstType?_eq_none_iff.1 hc
    rw [declaration_extract_of_not_isNamed path hnone]
    apply declaration_extract_of_not_isNamed path
    exact fun i hi => hnone i ((isNamed_classLike_asComment_iff hb hfree).1 hi)
  | some c =>
    have hs := isTypeSpan_typeEnd hc
    rw [declaration_extract_of_isTypeSpan path hs,
      declaration_extract_of_isTypeSpan path (isTypeSpan_asComment hb hfree hs),
      declarationAt_asComment_of_not_documents path hb hfree hs h]

end Free

/-! ### Blocks in front of nameless constructs -/

theorem Declares.not_isTargetGap {t : Token} (hi : Declares ts i) (ht : ts[i]? = some t) :
    t.isTargetGap = false := by
  rw [isTargetGap]
  rcases hi with hk | hk <;> rw [kindAt?_eq ht, Option.some.injEq] at hk <;> rw [hk] <;> rfl

namespace IsNamelessBlock

variable (h : IsNamelessBlock ts b j)
include h

theorem lt : b < j := (exists_of_nextSignificant? h.next).1

/-- The block waits for what the keyword declares. -/
theorem kindAt?_of_isBlockFor (hb : IsBlockFor ts target b) :
    kindAt? ts j = some target.keyword := by
  have htarget := hb.2
  rw [targetAfter?, firstSignificant?_drop, h.next, Option.bind_some] at htarget
  obtain ⟨t, ht, hk⟩ := Option.bind_eq_some_iff.1 htarget
  have hkind := kindAt?_eq ht
  have hkeyword := h.keyword
  rw [Declares, hkind, Option.some.injEq, Option.some.injEq] at hkeyword
  rcases hkeyword with hj | hj
  all_goals
    rw [hj] at hk
    obtain rfl := Option.some.inj hk
    rw [hkind, hj]
    rfl

/-- A construct with a name that comes behind the block comes behind the keyword. -/
theorem lt_of_declares (hi : Declares ts i) (hn : (nameAt? ts i).isSome) (hbi : b < i) : j < i := by
  by_contra hij
  have hne : i ≠ j := by
    rintro rfl
    simp [h.nameless] at hn
  have hlt : i < ts.length :=
    hi.elim (fun hk => lt_length_of_isNamed ⟨hk, hn⟩) fun hk => lt_length_of_isNamed ⟨hk, hn⟩
  have ht := List.getElem?_eq_getElem hlt
  have hgap := (exists_of_nextSignificant? h.next).2.2 i hbi (by omega) _ ht
  rw [hi.not_isTargetGap ht] at hgap
  contradiction

/-- Only in front of an anonymous class that precedes the type can the block document the type. -/
theorem lt_of_typeBlock? (hs : IsTypeSpan ts c e) (hc : typeBlock? ts c = some b) :
    kindAt? ts j = some .classLike ∧ j < c := by
  have hlt := (lastBefore?_eq_some_iff.1 hc).1
  exact ⟨h.kindAt?_of_isBlockFor (isBlockFor_of_typeBlock? hc),
    h.lt_of_declares (Or.inl hs.named.1) hs.named.2 hlt⟩

/-- Only in front of a closure inside the type can the block document a member. -/
theorem lt_of_memberBlock? (hf : f ∈ functionsBetween ts c e)
    (hb : memberBlock? ts c f = some b) :
    kindAt? ts j = some .functionWord ∧ c ≤ j ∧ j < f := by
  obtain ⟨⟨hbf, hblock, -⟩, hreset⟩ := memberBlock?_eq_some_iff.1 hb
  have hfn := (mem_functionsBetween.1 hf).2.2
  have hkind := h.kindAt?_of_isBlockFor hblock
  have hjf := h.lt_of_declares (Or.inr hfn.1) hfn.2 hbf
  refine ⟨hkind, ?_, hjf⟩
  by_contra hjc
  exact hreset j hjf h.lt ⟨hkind, Or.inl (by omega)⟩

end IsNamelessBlock

end Token

open Token

/-- A block in front of an anonymous class or a closure is not dropped. Where no keyword looks for its
name up to the block, the block is as good as an ordinary comment if it documents nothing. It can
document the type, if it stands in front of an anonymous class that precedes the type, and a member,
if it stands in front of a closure inside the type and the member comes later; without it, the block
that waited before it is found there. A keyword that meets the block where its name would be has no
name, and has that behind the block if the block is a comment. -/
theorem declaration_asComment_nameless (path : Text) {ts : List Token} {b j : Nat}
    (h : IsNamelessBlock ts b j) :
    ((∀ i, ¬ IsStoppedBy ts i b) →
      (¬ Documents ts b →
        (extract path (asComment ts b)).declaration = (extract path ts).declaration) ∧
      (∀ c e, IsTypeSpan ts c e → typeBlock? ts c = some b →
        kindAt? ts j = some .classLike ∧ j < c ∧
          ∃ d, (extract path ts).declaration = some d ∧ d.documentation = textAt? ts b ∧
            (extract path (asComment ts b)).declaration =
              some { d with documentation := (typeBlock? ts b).bind (textAt? ts) }) ∧
      ∀ c e f, IsTypeSpan ts c e → f ∈ functionsBetween ts c e → memberBlock? ts c f = some b →
        kindAt? ts j = some .functionWord ∧ c < j ∧ j < f ∧
          ∃ d before m after, (extract path ts).declaration = some d ∧
            d.members = before ++ m :: after ∧
            nameAt? ts f = some m.name ∧ m.documentation = textAt? ts b ∧
            (extract path (asComment ts b)).declaration =
              some { d with
                members := before ++
                  { m with documentation := (memberBlock? ts c b).bind (textAt? ts) } :: after }) ∧
    ∀ i, IsStoppedBy ts i b →
      nameAt? ts i = none ∧ nameAt? (asComment ts b) i = nameAt? ts b := by
  refine ⟨fun hfree => ⟨fun hnot => ?_, fun c e hs hc => ?_, fun c e f hs hf hb => ?_⟩,
    fun i hi => ⟨hi.nameAt?_eq_none h.block, hi.nameAt?_asComment⟩⟩
  · exact declaration_extract_asComment_of_not_documents path h.block hfree hnot
  · obtain ⟨hkind, hlt⟩ := h.lt_of_typeBlock? hs hc
    refine ⟨hkind, hlt, declarationAt ts path c e, declaration_extract_of_isTypeSpan path hs, ?_, ?_⟩
    · rw [declarationAt, hc, Option.bind_some]
    · rw [declaration_extract_of_isTypeSpan path (isTypeSpan_asComment h.block hfree hs),
        declarationAt_asComment_of_typeBlock? path h.block hfree hs hc]
  · obtain ⟨hkind, hle, hlt⟩ := h.lt_of_memberBlock? hf hb
    have hne : c ≠ j := by
      rintro rfl
      exact absurd (hs.named.1.symm.trans hkind) (by decide)
    obtain ⟨before, after, hold, hnew⟩ :=
      declarationAt_asComment_of_memberBlock? path h.block hfree hs hf hb
    obtain ⟨name, hname⟩ := Option.isSome_iff_exists.1 (mem_functionsBetween.1 hf).2.2.2
    refine ⟨hkind, by omega, hlt, declarationAt ts path c e, before, memberAt ts c f, after,
      declaration_extract_of_isTypeSpan path hs, congrArg Declaration.members hold, ?_, ?_, ?_⟩
    · rw [memberAt, hname, Option.getD_some]
    · rw [memberAt, hb, Option.bind_some]
    · rw [declaration_extract_of_isTypeSpan path (isTypeSpan_asComment h.block hfree hs), hnew]

/-- A source in which a closure inside a method has a documentation block. -/
def closureSource : Text :=
  ("<?php\nclass Table\n\x7b\n\tfunction rows() \x7b map(/** Doubles a row. */ function () " ++
    "\x7b\x7d); \x7d\n\tfunction clear() \x7b\x7d\n\x7d\n").toList

/-- The tokens of that source: the block stands at 20, in front of the closure at 22. -/
def closureRow : List Token :=
  Lexeme.place 0 [
    ⟨.other, ['<']⟩, ⟨.other, ['?']⟩, ⟨.identifier, "php".toList⟩, ⟨.whitespace, ['\n']⟩,
    ⟨.classLike, "class".toList⟩, ⟨.whitespace, [' ']⟩, ⟨.identifier, "Table".toList⟩,
    ⟨.whitespace, ['\n']⟩, ⟨.openBrace, ['{']⟩, ⟨.whitespace, "\n\t".toList⟩,
    ⟨.functionWord, "function".toList⟩, ⟨.whitespace, [' ']⟩, ⟨.identifier, "rows".toList⟩,
    ⟨.other, ['(']⟩, ⟨.other, [')']⟩, ⟨.whitespace, [' ']⟩, ⟨.openBrace, ['{']⟩,
    ⟨.whitespace, [' ']⟩, ⟨.identifier, "map".toList⟩, ⟨.other, ['(']⟩,
    ⟨.docBlock, "/** Doubles a row. */".toList⟩, ⟨.whitespace, [' ']⟩,
    ⟨.functionWord, "function".toList⟩, ⟨.whitespace, [' ']⟩, ⟨.other, ['(']⟩, ⟨.other, [')']⟩,
    ⟨.whitespace, [' ']⟩, ⟨.openBrace, ['{']⟩, ⟨.other, ['}']⟩, ⟨.other, [')']⟩,
    ⟨.semicolon, [';']⟩, ⟨.whitespace, [' ']⟩, ⟨.other, ['}']⟩, ⟨.whitespace, "\n\t".toList⟩,
    ⟨.functionWord, "function".toList⟩, ⟨.whitespace, [' ']⟩, ⟨.identifier, "clear".toList⟩,
    ⟨.other, ['(']⟩, ⟨.other, [')']⟩, ⟨.whitespace, [' ']⟩, ⟨.openBrace, ['{']⟩, ⟨.other, ['}']⟩,
    ⟨.whitespace, ['\n']⟩, ⟨.other, ['}']⟩, ⟨.whitespace, ['\n']⟩]

theorem tokenize_closureSource : tokenize closureSource = closureRow := by cbv

theorem isNamelessBlock_closureRow : IsNamelessBlock closureRow 20 22 where
  block := rfl
  next := rfl
  keyword := Or.inr rfl
  nameless := rfl

/-- In front of the block stands a parenthesis, and no name is looked for past it. -/
theorem not_isStoppedBy_closureRow (i : Nat) : ¬ IsStoppedBy closureRow i 20 := by
  rintro ⟨hi, hnext⟩
  obtain ⟨hlt, -, hgap⟩ := exists_of_nextSignificant? hnext
  have hparen : closureRow[19]? = some ⟨.other, ['('], 42⟩ := rfl
  by_cases h : i = 19
  · subst h
    have hkind : kindAt? closureRow 19 = some .other := kindAt?_eq hparen
    simp [Declares, hkind] at hi
  · exact absurd (hgap 19 (by omega) (by omega) _ hparen) (by decide)

theorem declaration_asComment_nameless_closureRow :
    IsNamelessBlock closureRow 20 22 ∧
      (∀ i, ¬ IsStoppedBy closureRow i 20) ∧
      ∃ d before m after, (extract [] closureRow).declaration = some d ∧
        d.members = before ++ m :: after ∧
        nameAt? closureRow 34 = some m.name ∧
        m.documentation = textAt? closureRow 20 ∧
        (extract [] (asComment closureRow 20)).declaration =
          some { d with members := before ++ { m with documentation := none } :: after } := by
  have hs : IsTypeSpan closureRow 4 45 := isTypeSpan_typeEnd (by decide)
  have hf : 34 ∈ functionsBetween closureRow 4 45 := by decide
  have hblock : memberBlock? closureRow 4 34 = some 20 := by decide
  have hbefore : memberBlock? closureRow 4 20 = none := by decide
  have h := (declaration_asComment_nameless [] isNamelessBlock_closureRow).1
    not_isStoppedBy_closureRow
  have hmember := (h.2.2 4 45 34 hs hf hblock).2.2.2
  rw [hbefore] at hmember
  exact ⟨isNamelessBlock_closureRow, not_isStoppedBy_closureRow, hmember⟩

/-- The block of the closure documents the next method. -/
theorem closure_documents_closureSource :
    IsNamelessBlock (tokenize closureSource) 20 22 ∧
      (extract [] (tokenize closureSource)).declaration =
        some ⟨[], "Table".toList, none,
          [⟨"rows".toList, none⟩, ⟨"clear".toList, some "/** Doubles a row. */".toList⟩], []⟩ ∧
      (extract [] (asComment (tokenize closureSource) 20)).declaration =
        some ⟨[], "Table".toList, none, [⟨"rows".toList, none⟩, ⟨"clear".toList, none⟩], []⟩ := by
  rw [tokenize_closureSource]
  exact ⟨isNamelessBlock_closureRow, rfl, rfl⟩

end DocPages
