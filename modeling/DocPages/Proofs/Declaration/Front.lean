import DocPages.Proofs.Declaration.Attachment

/-!
# The front of a row

The pass looks ahead, so what it makes of a token may hang on tokens that come later. Where a look
ahead ends inside the front of a row, it does not change when the row goes on. A name that is found
in the front settles all that stands before it: which keywords are named, what the documentation
blocks stand in front of, and so what the first type is and what its members so far are.

Main statement: what the front of a row declares stays, but for members that are added and a
namespace whose statement goes on (`declaration_extract_take`).
-/

namespace DocPages

namespace Token

variable {us vs : List Token} {k : TokenKind} {target : DocTarget} {c e f i m n : Nat}

/-! ### Looking ahead -/

theorem firstSignificant?_append_of_mem {skip : Token → Bool} (h : ∃ t ∈ us, skip t = false) :
    firstSignificant? skip (us ++ vs) = firstSignificant? skip us := by
  have hsome : (us.find? fun t => !skip t).isSome := by
    obtain ⟨t, ht, hskip⟩ := h
    exact List.find?_isSome.2 ⟨t, ht, by simp [hskip]⟩
  rw [firstSignificant?, List.find?_append, Option.or_of_isSome hsome, firstSignificant?]

/-- Behind a keyword that is named in the front, and behind all that stands before it, the name ends
every look for a name. -/
theorem nameAt?_append (hm : (nameAt? us m).isSome) (hi : i ≤ m) :
    nameAt? (us ++ vs) i = nameAt? us i := by
  rw [nameAt?_eq, nameAfter?, Option.isSome_bind] at hm
  obtain ⟨t, ht, -⟩ := (Option.any_eq_true _ _).1 hm
  have hmem : t ∈ us.drop (i + 1) :=
    List.drop_subset_drop_left us (by omega) (List.mem_of_find?_eq_some ht)
  have hgap : t.isNameGap = false := by simpa using List.find?_some ht
  have hlen : i + 1 ≤ us.length := by
    have := List.length_pos_of_mem hmem
    rw [List.length_drop] at this
    omega
  rw [nameAt?_eq, nameAt?_eq, List.drop_append_of_le_length hlen, nameAfter?, nameAfter?,
    firstSignificant?_append_of_mem ⟨t, hmem, hgap⟩]

section Before

variable {t : Token} (ht : us[m]? = some t) (hi : i < m)
include ht hi

theorem mem_drop_of_getElem? : t ∈ us.drop (i + 1) := by
  obtain ⟨d, rfl⟩ := Nat.exists_eq_add_of_lt hi
  apply List.mem_of_getElem?
  rw [List.getElem?_drop, Nat.add_right_comm, ht]

theorem drop_append_of_getElem? : (us ++ vs).drop (i + 1) = us.drop (i + 1) ++ vs := by
  have hlen := (List.getElem?_eq_some_iff.1 ht).1
  exact List.drop_append_of_le_length (by omega)

/-- In front of a token that is no target gap, the look for a target ends there. -/
theorem targetAfter?_drop_append (hgap : t.isTargetGap = false) :
    targetAfter? ((us ++ vs).drop (i + 1)) = targetAfter? (us.drop (i + 1)) := by
  rw [drop_append_of_getElem? ht hi, targetAfter?, targetAfter?,
    firstSignificant?_append_of_mem ⟨t, mem_drop_of_getElem? ht hi, hgap⟩]

/-- A statement that ends in the front declares what it did. -/
theorem namespaceAt_append (hend : t.endsNamespace) : namespaceAt (us ++ vs) i = namespaceAt us i := by
  have hshort : ((us.drop (i + 1)).takeWhile fun t => !t.endsNamespace).length ≠
      (us.drop (i + 1)).length := by
    intro hlen
    have hall := (List.takeWhile_prefix _).eq_of_length hlen
    have := List.takeWhile_eq_self_iff.1 hall t (mem_drop_of_getElem? ht hi)
    simp [hend] at this
  rw [namespaceAt, namespaceAt, drop_append_of_getElem? ht hi, List.takeWhile_append, if_neg hshort]

end Before

theorem kindAt?_append (hi : i < us.length) : kindAt? (us ++ vs) i = kindAt? us i := by
  rw [kindAt?, kindAt?, List.getElem?_append_left hi]

theorem textAt?_append (hi : i < us.length) : textAt? (us ++ vs) i = textAt? us i := by
  rw [textAt?, textAt?, List.getElem?_append_left hi]

/-! ### What stands in front of a name -/

section Named

variable (hm : IsNamed us k m)
include hm

theorem isNamed_append_iff {k' : TokenKind} (hi : i ≤ m) :
    IsNamed (us ++ vs) k' i ↔ IsNamed us k' i := by
  have hlen := lt_length_of_isNamed hm
  rw [IsNamed, IsNamed, nameAt?_append hm.2 hi, kindAt?_append (by omega)]

theorem statementBefore?_append : statementBefore? (us ++ vs) m = statementBefore? us m := by
  have hlen := lt_length_of_isNamed hm
  exact lastBefore?_congr fun i hi => by rw [kindAt?_append (by omega)]

variable (hk : k = .classLike ∨ k = .functionWord)
include hk

theorem isBlockFor_append_iff (hi : i < m) :
    IsBlockFor (us ++ vs) target i ↔ IsBlockFor us target i := by
  have hlen := lt_length_of_isNamed hm
  obtain ⟨t, ht, hkind⟩ := Option.map_eq_some_iff.1 hm.1
  have hgap : t.isTargetGap = false := by
    rw [isTargetGap, hkind]
    rcases hk with rfl | rfl <;> rfl
  rw [IsBlockFor, IsBlockFor, targetAfter?_drop_append ht hi hgap, kindAt?_append (by omega)]

theorem lastBlockBefore?_append :
    lastBefore? (IsBlockFor (us ++ vs) target) m = lastBefore? (IsBlockFor us target) m :=
  lastBefore?_congr fun _ hi => isBlockFor_append_iff hm hk hi

end Named

theorem resets_append_iff (hm : IsNamed us .functionWord m) (hi : i < m) :
    Resets (us ++ vs) c i ↔ Resets us c i := by
  have hlen := lt_length_of_isNamed hm
  rw [Resets, Resets, isNamed_append_iff hm hi.le, kindAt?_append (by omega)]

theorem memberBlock?_append (hf : IsNamed us .functionWord f) :
    memberBlock? (us ++ vs) c f = memberBlock? us c f := by
  have hresets : ∀ b, (∀ g, g < f → b < g → ¬ Resets (us ++ vs) c g) ↔
      ∀ g, g < f → b < g → ¬ Resets us c g := fun b =>
    forall₂_congr fun g hg => by rw [resets_append_iff hf hg]
  simp only [memberBlock?, lastBlockBefore?_append hf (Or.inr rfl), hresets]

/-- A block in front of a name is the same text in the front and in the row. -/
theorem bind_textAt?_append {b? : Option Nat} (h : ∀ b ∈ b?, b < us.length) :
    b?.bind (textAt? (us ++ vs)) = b?.bind (textAt? us) := by
  cases b? with
  | none => rfl
  | some b => exact textAt?_append (h b rfl)

theorem memberAt_append (hf : IsNamed us .functionWord f) :
    memberAt (us ++ vs) c f = memberAt us c f := by
  have hlen := lt_length_of_isNamed hf
  have hlt : ∀ b ∈ memberBlock? us c f, b < us.length := fun b hb =>
    (memberBlock?_eq_some_iff.1 hb).1.1.trans hlen
  rw [memberAt, memberAt, nameAt?_append hf.2 le_rfl, memberBlock?_append hf,
    bind_textAt?_append hlt]

theorem typeDocumentation_append (hc : IsNamed us .classLike c) :
    (typeBlock? (us ++ vs) c).bind (textAt? (us ++ vs)) = (typeBlock? us c).bind (textAt? us) := by
  have hlen := lt_length_of_isNamed hc
  have hlt : ∀ b ∈ typeBlock? us c, b < us.length := fun b hb =>
    (lastBefore?_eq_some_iff.1 hb).1.trans hlen
  rw [typeBlock?, lastBlockBefore?_append hc (Or.inl rfl), ← typeBlock?, bind_textAt?_append hlt]

/-! ### The type and its members -/

/-- The first type of the front is the first type of the row. -/
theorem firstType?_append (h : firstType? us = some c) : firstType? (us ++ vs) = some c := by
  obtain ⟨hc, hfirst⟩ := firstType?_eq_some_iff.1 h
  refine firstType?_eq_some_iff.2 ⟨(isNamed_append_iff hc le_rfl).2 hc, fun i hi hn => ?_⟩
  exact hfirst i hi ((isNamed_append_iff hc hi.le).1 hn)

/-- The functions up to a named one are the same in the front and in the row. -/
theorem functionsBetween_append_of_isNamed (hm : IsNamed us k m) :
    functionsBetween (us ++ vs) c (m + 1) = functionsBetween us c (m + 1) := by
  refine List.filter_congr fun i hi => decide_eq_decide.2 ?_
  rw [isNamed_append_iff hm (Nat.le_of_lt_succ (List.mem_range.1 hi))]

theorem functionsBetween_isPrefix_of_le {ts : List Token} {e' : Nat} (h : e ≤ e') :
    functionsBetween ts c e <+: functionsBetween ts c e' := by
  induction h with
  | refl => exact List.prefix_rfl
  | step _ ih =>
    rw [functionsBetween_succ]
    exact ih.trans (List.prefix_append _ _)

section Span

variable {e' : Nat} (hs : IsTypeSpan us c e) (hs' : IsTypeSpan (us ++ vs) c e')
include hs hs'

/-- A function inside the type of the front stands inside that of the row. -/
theorem lt_of_isTypeSpan_append (hf : IsNamed us .functionWord f) (hfe : f < e) : f < e' := by
  by_contra hle
  have hlen := lt_length_of_isNamed hf
  have hnamed : IsNamed (us ++ vs) .classLike e' := hs'.stop.resolve_right (by
    rw [List.length_append]
    omega)
  have hnot := hs.next e' hs'.lt (by omega)
  exact hnot ((isNamed_append_iff hf (by omega)).1 hnamed)

/-- The functions of the front are the first ones of the row. -/
theorem functionsBetween_isPrefix (hn : n ≤ e) :
    functionsBetween us c n <+: functionsBetween (us ++ vs) c e' := by
  induction n with
  | zero =>
    rw [functionsBetween_of_le (Nat.zero_le _)]
    exact List.nil_prefix
  | succ f ih =>
    by_cases hf : c < f ∧ IsNamed us .functionWord f
    · have hlt := lt_of_isTypeSpan_append hs hs' hf.2 hn
      rw [← functionsBetween_append_of_isNamed hf.2]
      exact functionsBetween_isPrefix_of_le hlt
    · rw [functionsBetween_succ, if_neg hf, List.append_nil]
      exact ih (by omega)

theorem members_isPrefix :
    (functionsBetween us c e).map (memberAt us c) <+:
      (functionsBetween (us ++ vs) c e').map (memberAt (us ++ vs) c) := by
  have hmembers : (functionsBetween us c e).map (memberAt us c) =
      (functionsBetween us c e).map (memberAt (us ++ vs) c) :=
    List.map_congr_left fun f hf => (memberAt_append (mem_functionsBetween.1 hf).2.2).symm
  rw [hmembers]
  exact (functionsBetween_isPrefix hs hs' le_rfl).map _

end Span

/-- The namespace statement at `n` ends within the row. -/
def EndsWithin (ts : List Token) (n : Nat) : Prop :=
  ∃ i t, n < i ∧ ts[i]? = some t ∧ t.endsNamespace

theorem namespaceBefore_append (hc : IsNamed us .classLike c)
    (hend : ∀ n, statementBefore? us c = some n → EndsWithin us n) :
    namespaceBefore (us ++ vs) c = namespaceBefore us c := by
  rw [namespaceBefore_eq, namespaceBefore_eq, statementBefore?_append hc]
  cases hn : statementBefore? us c with
  | none => rfl
  | some n =>
    obtain ⟨i, t, hni, ht, hends⟩ := hend n hn
    rw [Option.map_some, Option.map_some, namespaceAt_append ht hni hends]

/-- What the front of a row declares, and what the whole row does. -/
theorem exists_declaration_append {path : Text} {d : Declaration}
    (h : (extract path us).declaration = some d) (vs : List Token) :
    ∃ d' c e, (extract path (us ++ vs)).declaration = some d' ∧ IsTypeSpan (us ++ vs) c e ∧
      d'.typeName = d.typeName ∧ d'.documentation = d.documentation ∧
      d'.sourcePath = d.sourcePath ∧ d.members <+: d'.members ∧
      ((∀ n, statementBefore? (us ++ vs) c = some n → EndsWithin us n) →
        d'.namespaceName = d.namespaceName) := by
  rw [declaration_extract] at h
  obtain ⟨c, hc, rfl⟩ := Option.map_eq_some_iff.1 h
  have hs := isTypeSpan_typeEnd hc
  have hs' : IsTypeSpan (us ++ vs) c (typeEnd (us ++ vs) c) :=
    isTypeSpan_typeEnd (firstType?_append hc)
  refine ⟨_, c, _, declaration_extract_of_isTypeSpan path hs', hs', ?_,
    typeDocumentation_append hs.named, rfl, members_isPrefix hs hs', fun hend => ?_⟩
  · rw [declarationAt, declarationAt, nameAt?_append hs.named.2 le_rfl]
  · rw [statementBefore?_append hs.named] at hend
    exact namespaceBefore_append hs.named hend

end Token

open Token

/-- What the first tokens of a row declare stays when the row goes on: the name of the type, its
documentation and the members so far, with theirs. The namespace stays too, unless the statement that
declares it goes on behind them. -/
theorem declaration_extract_take (path : Text) {ts : List Token} {k : Nat} {d : Declaration}
    (h : (extract path (ts.take k)).declaration = some d) :
    ∃ d' c e, (extract path ts).declaration = some d' ∧ IsTypeSpan ts c e ∧
      d'.typeName = d.typeName ∧ d'.documentation = d.documentation ∧
      d'.sourcePath = d.sourcePath ∧ d.members <+: d'.members ∧
      ((∀ n, statementBefore? ts c = some n → EndsWithin (ts.take k) n) →
        d'.namespaceName = d.namespaceName) := by
  have hrow := exists_declaration_append h (ts.drop k)
  rwa [List.take_append_drop] at hrow

/-- Cut behind its first function, the row declares the type with that function alone. -/
theorem declaration_extract_take_mixedRow :
    (extract [] (mixedRow.take 17)).declaration =
        some ⟨"App".toList, "Tool".toList, some "/** Tool. */".toList, [⟨"run".toList, none⟩], []⟩ ∧
      ∃ d' c e, (extract [] mixedRow).declaration = some d' ∧ IsTypeSpan mixedRow c e ∧
        d'.typeName = "Tool".toList ∧ d'.documentation = some "/** Tool. */".toList ∧
        d'.sourcePath = [] ∧ [⟨"run".toList, none⟩] <+: d'.members ∧
        ((∀ n, statementBefore? mixedRow c = some n → EndsWithin (mixedRow.take 17) n) →
          d'.namespaceName = "App".toList) := by
  have h : (extract [] (mixedRow.take 17)).declaration =
      some ⟨"App".toList, "Tool".toList, some "/** Tool. */".toList, [⟨"run".toList, none⟩], []⟩ :=
    rfl
  exact ⟨h, declaration_extract_take [] h⟩

end DocPages
