import DocPages.Proofs.Token.Rekind
import Mathlib

/-!
# Words that are acted on

A row of tokens declares names: those of a type, its namespace and its members. A word of the row has
a part in them when it is the keyword of the type, the keyword of the next type, the keyword of a
member or the keyword of the namespace statement (`IsActedOn`). Any other word may as well be a plain
name (`declaredNames_asName`); for each of the four parts it is said what the names are without it.

Main statement: the pass does not tell an anonymous class from a named one. It passes over an
anonymous class when no word stands behind the keyword, and acts on the keyword otherwise
(`declaredNames_anonymous`).
-/

namespace DocPages

open Token

/-- What a declaration says without its documentation: the names of its type, its namespace and its
members. -/
structure Declaration.Names where
  typeName : Text
  namespaceName : Text
  members : List Text
  deriving DecidableEq, Repr

/-- The names of a declaration. -/
def Declaration.names (d : Declaration) : Declaration.Names :=
  ⟨d.typeName, d.namespaceName, d.members.map Member.name⟩

/-- The names of what a row of tokens declares. -/
def declaredNames (path : Text) (ts : List Token) : Option Declaration.Names :=
  (extract path ts).declaration.map Declaration.names

namespace Token

variable (ts : List Token)

/-- The names of the functions between two positions. -/
def memberNames (c e : Nat) : List Text :=
  (functionsBetween ts c e).map fun f => (nameAt? ts f).getD []

/-- The names of the type at `c` with the members in front of position `e`. -/
def namesAt (c e : Nat) : Declaration.Names :=
  ⟨(nameAt? ts c).getD [], namespaceBefore ts c, memberNames ts c e⟩

/-- The word at `j` has a part in what the row declares. -/
inductive IsActedOn (j : Nat) : Prop
  | first (e : Nat) (hs : IsTypeSpan ts j e)
  | next (c : Nat) (hs : IsTypeSpan ts c j)
  | member (c e : Nat) (hs : IsTypeSpan ts c e) (hf : j ∈ functionsBetween ts c e)
  | statement (c e : Nat) (hs : IsTypeSpan ts c e) (hj : statementBefore? ts c = some j)

variable {ts}

section Spans

variable {path : Text} {c e i j : Nat}

theorem declaredNames_of_isTypeSpan (hs : IsTypeSpan ts c e) :
    declaredNames path ts = some (namesAt ts c e) := by
  rw [declaredNames, declaration_extract_of_isTypeSpan path hs, Option.map_some]
  simp only [Declaration.names, declarationAt, List.map_map, namesAt, memberNames]
  rfl

theorem nameAt?_of_isTypeSpan (hs : IsTypeSpan ts c e) :
    nameAt? ts c = some (namesAt ts c e).typeName := by
  obtain ⟨name, hname⟩ := Option.isSome_iff_exists.1 hs.named.2
  rw [namesAt, hname, Option.getD_some]

theorem declaredNames_of_not_isNamed (h : ∀ i, ¬ IsNamed ts .classLike i) :
    declaredNames path ts = none := by
  rw [declaredNames, declaration_extract_of_not_isNamed path h, Option.map_none]

end Spans

/-! ### The names without a word -/

section AsName

variable {path : Text} {c e i j : Nat} (hj : IsWordAt ts j)
include hj

theorem isTypeSpan_asName (hs : IsTypeSpan ts c e) (hc : j ≠ c) (he : j ≠ e) :
    IsTypeSpan (asName ts j) c e where
  named := (isNamed_classLike_asName_iff hj).2 ⟨hc.symm, hs.named⟩
  first i hi hn := hs.first i hi ((isNamed_classLike_asName_iff hj).1 hn).2
  lt := hs.lt
  stop := by
    rw [isNamed_classLike_asName_iff hj, length_asName]
    exact hs.stop.imp_left fun h => ⟨he.symm, h⟩
  next i hi hie hn := hs.next i hi hie ((isNamed_classLike_asName_iff hj).1 hn).2

/-- Without the keyword of the next type, the type goes on up to the one behind it. -/
theorem isTypeSpan_asName_of_next (hs : IsTypeSpan ts c j) :
    IsTypeSpan (asName ts j) c (typeEnd ts j) := by
  have hlt := hs.lt
  obtain ⟨hend, hstop, hnext⟩ := typeEnd_spec hj.lt_length
  refine ⟨(isNamed_classLike_asName_iff hj).2 ⟨by omega, hs.named⟩, fun i hi hn => ?_, by omega,
    ?_, fun i hi hie hn => ?_⟩
  · exact hs.first i hi ((isNamed_classLike_asName_iff hj).1 hn).2
  · rw [isNamed_classLike_asName_iff hj, length_asName]
    exact hstop.imp_left fun h => ⟨by omega, h⟩
  · -- In front of `j` no type comes in the old span, and behind it none in the next type.
    obtain ⟨hij, hn⟩ := (isNamed_classLike_asName_iff hj).1 hn
    rcases Nat.lt_or_gt_of_ne hij with hlt | hgt
    · exact hs.next i hi hlt hn
    · exact hnext i hgt hie hn

/-- Without the keyword of the first type, the next type is the first. -/
theorem isTypeSpan_asName_of_first (hs : IsTypeSpan ts j e) (he : e < ts.length) :
    IsTypeSpan (asName ts j) e (typeEnd ts e) := by
  have hlt := hs.lt
  obtain ⟨hend, hstop, hnext⟩ := typeEnd_spec he
  have hnamed : IsNamed ts .classLike e := hs.stop.resolve_right (by omega)
  refine ⟨(isNamed_classLike_asName_iff hj).2 ⟨by omega, hnamed⟩, fun i hi hn => ?_, hend,
    ?_, fun i hi hie hn => ?_⟩
  · obtain ⟨hij, hn⟩ := (isNamed_classLike_asName_iff hj).1 hn
    rcases Nat.lt_or_gt_of_ne hij with hlt | hgt
    · exact hs.first i hlt hn
    · exact hs.next i hgt hi hn
  · rw [isNamed_classLike_asName_iff hj, length_asName]
    exact hstop.imp_left fun h => ⟨by omega, h⟩
  · exact hnext i hi hie ((isNamed_classLike_asName_iff hj).1 hn).2

theorem memberNames_asName :
    memberNames (asName ts j) c e =
      ((functionsBetween ts c e).filter (· ≠ j)).map fun f => (nameAt? ts f).getD [] := by
  rw [memberNames, functionsBetween_asName hj]
  refine List.map_congr_left fun f _ => ?_
  rw [nameAt?_congr hj.forall₂]

theorem memberNames_asName_of_not_mem (h : j ∉ functionsBetween ts c e) :
    memberNames (asName ts j) c e = memberNames ts c e := by
  rw [memberNames_asName hj, memberNames, List.filter_eq_self.2]
  rintro f hf
  rw [decide_eq_true_eq]
  rintro rfl
  exact h hf

/-- A word that is neither the keyword of a member nor that of the namespace statement is nothing to
the names of a type. -/
theorem namesAt_asName (hf : j ∉ functionsBetween ts c e) (hn : statementBefore? ts c ≠ some j) :
    namesAt (asName ts j) c e = namesAt ts c e := by
  rw [namesAt, namesAt, memberNames_asName_of_not_mem hj hf, nameAt?_congr hj.forall₂,
    namespaceBefore_asName_of_ne hj hn]

/-- A word that is not acted on may as well be a plain name. -/
theorem declaredNames_asName (h : ¬ IsActedOn ts j) :
    declaredNames path (asName ts j) = declaredNames path ts := by
  cases hc : firstType? ts with
  | none =>
    have hnone := firstType?_eq_none_iff.1 hc
    rw [declaredNames_of_not_isNamed hnone]
    refine declaredNames_of_not_isNamed fun i hi => ?_
    exact hnone i ((isNamed_classLike_asName_iff hj).1 hi).2
  | some c =>
    have hs := isTypeSpan_typeEnd hc
    have hjc : j ≠ c := by
      rintro rfl
      exact h (.first _ hs)
    have hje : j ≠ typeEnd ts c := fun he => h (.next c (he ▸ hs))
    rw [declaredNames_of_isTypeSpan hs, declaredNames_of_isTypeSpan (isTypeSpan_asName hj hs hjc hje),
      namesAt_asName hj (fun hf => h (.member c _ hs hf)) fun hn => h (.statement c _ hs hn)]

theorem declaredNames_asName_of_first (hs : IsTypeSpan ts j e) :
    declaredNames path (asName ts j) =
      if e < ts.length then some (namesAt ts e (typeEnd ts e)) else none := by
  have hclass := hs.named.1
  split
  · next he =>
    rw [declaredNames_of_isTypeSpan (isTypeSpan_asName_of_first hj hs he), namesAt_asName hj]
    · intro hf
      have := (mem_functionsBetween.1 hf).2.1
      exact absurd hs.lt (by omega)
    · intro hn
      exact absurd (hclass.symm.trans (lastBefore?_eq_some_iff.1 hn).2.1) (by decide)
  · next he =>
    have hlen : e = ts.length := by have := hs.le_length; omega
    refine declaredNames_of_not_isNamed fun i hi => ?_
    obtain ⟨hij, hi⟩ := (isNamed_classLike_asName_iff hj).1 hi
    rcases Nat.lt_or_gt_of_ne hij with hlt | hgt
    · exact hs.first i hlt hi
    · exact hs.next i hgt (hlen ▸ lt_length_of_isNamed hi) hi

theorem declaredNames_asName_of_next (hs : IsTypeSpan ts c j) :
    declaredNames path (asName ts j) =
      some { namesAt ts c j with
        members := memberNames ts c j ++ memberNames ts j (typeEnd ts j) } := by
  have hlt := hs.lt
  have hend := (typeEnd_spec hj.lt_length).1
  have hclass : kindAt? ts j = some .classLike :=
    (hs.stop.resolve_right (Nat.ne_of_lt hj.lt_length)).1
  have hfun : ¬ IsNamed ts .functionWord j := not_isNamed_of_kindAt? hclass (by decide)
  have hstatement : statementBefore? ts c ≠ some j := fun hn =>
    absurd (lastBefore?_eq_some_iff.1 hn).1 (by omega)
  rw [declaredNames_of_isTypeSpan (isTypeSpan_asName_of_next hj hs), namesAt_asName hj
    (fun hf => hfun (mem_functionsBetween.1 hf).2.2) hstatement, namesAt, namesAt, memberNames,
    functionsBetween_append hlt hend.le hfun, List.map_append, memberNames, memberNames]

theorem declaredNames_asName_of_member (hs : IsTypeSpan ts c e)
    (hf : j ∈ functionsBetween ts c e) :
    declaredNames path (asName ts j) =
      some { namesAt ts c e with
        members := ((functionsBetween ts c e).filter (· ≠ j)).map fun f =>
          (nameAt? ts f).getD [] } := by
  obtain ⟨hje, hcj, hfun⟩ := mem_functionsBetween.1 hf
  have hstatement : statementBefore? ts c ≠ some j := fun hn =>
    absurd (lastBefore?_eq_some_iff.1 hn).1 (by omega)
  rw [declaredNames_of_isTypeSpan (isTypeSpan_asName hj hs (by omega) (by omega)), namesAt,
    memberNames_asName hj, nameAt?_congr hj.forall₂, namespaceBefore_asName_of_ne hj hstatement,
    namesAt]

theorem declaredNames_asName_of_statement (hs : IsTypeSpan ts c e)
    (hn : statementBefore? ts c = some j) :
    declaredNames path (asName ts j) =
      some { namesAt ts c e with namespaceName := namespaceBefore ts j } := by
  obtain ⟨hjc, hkind, -⟩ := lastBefore?_eq_some_iff.1 hn
  have hlt := hs.lt
  have hfun : j ∉ functionsBetween ts c e := fun hf =>
    absurd (mem_functionsBetween.1 hf).2.1 (by omega)
  rw [declaredNames_of_isTypeSpan (isTypeSpan_asName hj hs (by omega) (by omega)), namesAt,
    memberNames_asName_of_not_mem hj hfun, nameAt?_congr hj.forall₂, namespaceBefore_asName hj hn,
    namesAt]

end AsName

/-! ### Anonymous classes -/

/-- The word in front of an anonymous class. -/
def newWord : Text := "new".toList

variable (ts) in
/-- At position `i` stands the keyword of an anonymous class: in front of it, with nothing but blank
space and comments between, stands the word `new`. -/
structure IsAnonymous (i : Nat) : Prop where
  keyword : kindAt? ts i = some .classLike
  previous : ∃ b t, b < i ∧ ts[b]? = some t ∧ t.kind.isWord ∧ Text.isOneOf [newWord] t.text ∧
    ∀ m, b < m → m < i → ∀ u ∈ ts[m]?, u.isTrivia

section Anonymous

variable {i : Nat}

theorem IsAnonymous.isWordAt (h : IsAnonymous ts i) : IsWordAt ts i := ⟨_, h.keyword, rfl⟩

/-- The keyword of a class is acted on as the first type or as the next one. -/
theorem IsActedOn.of_classLike (h : IsActedOn ts i) (hk : kindAt? ts i = some .classLike) :
    (∃ e, IsTypeSpan ts i e) ∨ ∃ c, IsTypeSpan ts c i := by
  cases h with
  | first e hs => exact Or.inl ⟨e, hs⟩
  | next c hs => exact Or.inr ⟨c, hs⟩
  | member c e hs hf =>
    exact absurd (mem_functionsBetween.1 hf).2.2 (not_isNamed_of_kindAt? hk (by decide))
  | statement c e hs hn =>
    exact absurd (hk.symm.trans (lastBefore?_eq_some_iff.1 hn).2.1) (by decide)

theorem IsActedOn.isSome_nameAt? (h : IsActedOn ts i) (hk : kindAt? ts i = some .classLike) :
    (nameAt? ts i).isSome := by
  rcases h.of_classLike hk with ⟨e, hs⟩ | ⟨c, hs⟩
  · exact hs.named.2
  · exact (hs.stop.resolve_right (Nat.ne_of_lt (IsWordAt.lt_length ⟨_, hk, rfl⟩))).2

end Anonymous

end Token

/-- An anonymous class is passed over when no word stands behind the keyword, as in front of its
arguments or its body, and when it stands behind the end of the declared type. Otherwise the word
behind the keyword, such as `extends`, is taken for its name: the first type of a row is recorded under
that name, and the next one ends the members of the declared type, which would go on behind it. -/
theorem declaredNames_anonymous (path : Text) {ts : List Token} {i : Nat} (h : IsAnonymous ts i) :
    (nameAt? ts i = none → declaredNames path (asName ts i) = declaredNames path ts) ∧
      ((∀ e, ¬ IsTypeSpan ts i e) → (∀ c, ¬ IsTypeSpan ts c i) →
        declaredNames path (asName ts i) = declaredNames path ts) ∧
      (∀ e, IsTypeSpan ts i e → ∃ n, declaredNames path ts = some n ∧
        nameAt? ts i = some n.typeName ∧
        declaredNames path (asName ts i) =
          if e < ts.length then some (namesAt ts e (typeEnd ts e)) else none) ∧
      ∀ c, IsTypeSpan ts c i → ∃ n, declaredNames path ts = some n ∧
        declaredNames path (asName ts i) =
          some { n with members := n.members ++ memberNames ts i (typeEnd ts i) } := by
  have hword := h.isWordAt
  refine ⟨fun hnone => ?_, fun hfirst hnext => ?_, fun e hs => ?_, fun c hs => ?_⟩
  · apply declaredNames_asName hword
    intro hacted
    simpa [hnone] using hacted.isSome_nameAt? h.keyword
  · apply declaredNames_asName hword
    intro hacted
    rcases hacted.of_classLike h.keyword with ⟨e, hs⟩ | ⟨c, hs⟩
    · exact hfirst e hs
    · exact hnext c hs
  · exact ⟨namesAt ts i e, declaredNames_of_isTypeSpan hs, nameAt?_of_isTypeSpan hs,
      declaredNames_asName_of_first hword hs⟩
  · exact ⟨namesAt ts c i, declaredNames_of_isTypeSpan hs, declaredNames_asName_of_next hword hs⟩

/-- A source whose only class is anonymous and has a parent. -/
def derivedSource : Text := "<?php\n$b = new class extends Base \x7b\n\x7d;\n".toList

theorem isAnonymous_derivedSource : IsAnonymous (tokenize derivedSource) 10 where
  keyword := by cbv
  previous := by
    have hnew : (tokenize derivedSource)[8]? = some ⟨.identifier, newWord, 11⟩ := by cbv
    have hblank : (tokenize derivedSource)[9]? = some ⟨.whitespace, [' '], 14⟩ := by cbv
    refine ⟨8, _, by decide, hnew, rfl, by decide, fun m h₁ h₂ => ?_⟩
    obtain rfl : m = 9 := by omega
    rw [hblank]
    rintro u ⟨⟩
    rfl

theorem isTypeSpan_derivedSource :
    IsTypeSpan (tokenize derivedSource) 10 (typeEnd (tokenize derivedSource) 10) :=
  isTypeSpan_typeEnd (by cbv)

theorem declaredNames_anonymous_derivedSource :
    IsAnonymous (tokenize derivedSource) 10 ∧
      ∃ n, declaredNames [] (tokenize derivedSource) = some n ∧
        nameAt? (tokenize derivedSource) 10 = some n.typeName :=
  have h := (declaredNames_anonymous [] isAnonymous_derivedSource).2.2.1 _ isTypeSpan_derivedSource
  ⟨isAnonymous_derivedSource, h.imp fun _ hn => ⟨hn.1, hn.2.1⟩⟩

/-- The anonymous class is recorded under the name `extends`; read as a name, its keyword declares
nothing. -/
theorem anonymous_recorded_derivedSource :
    IsAnonymous (tokenize derivedSource) 10 ∧
      declaredNames [] (tokenize derivedSource) = some ⟨"extends".toList, [], []⟩ ∧
      declaredNames [] (asName (tokenize derivedSource) 10) = none :=
  ⟨isAnonymous_derivedSource, by cbv, by cbv⟩

end DocPages
