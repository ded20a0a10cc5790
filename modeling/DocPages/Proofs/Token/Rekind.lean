import DocPages.Proofs.Declaration.Outline
import DocPages.Proofs.Token.Cut
import Mathlib.Data.List.Forall2

/-!
# A keyword read as a name

What a row of tokens says depends on the kinds of its words only where a word is acted on. A row in
which the word at one position is a plain name (`Token.asName`) reads the same everywhere else, as a
word stays a word: the names behind the other keywords and the namespaces that other statements
declare are what they were.

Main statements: only the position itself is no longer a keyword (`isNamed_asName_iff`), and with it
the function or the namespace statement there is gone (`functionsBetween_asName`,
`namespaceBefore_asName`).
-/

namespace DocPages

namespace Token

/-- The row in which the token at a position is a plain name. -/
def asName (ts : List Token) (j : Nat) : List Token :=
  ts.modify j fun t => { t with kind := .identifier }

/-- At the position stands a word. -/
def IsWordAt (ts : List Token) (j : Nat) : Prop := ∃ k, kindAt? ts j = some k ∧ k.isWord

/-! ### Rows that agree up to the kinds of words -/

/-- The tokens have the same text, and the same kind if they are no words. -/
def WordsAgree (t t' : Token) : Prop :=
  t'.text = t.text ∧ (t'.kind = t.kind ∨ t.kind.isWord ∧ t'.kind.isWord)

section WordsAgree

variable {t t' : Token} {ts us : List Token} {i j : Nat} {k : TokenKind}

theorem WordsAgree.isWord_eq (h : WordsAgree t t') : t'.kind.isWord = t.kind.isWord := by
  rcases h.2 with hk | ⟨hk, hk'⟩
  · rw [hk]
  · rw [hk, hk']

/-- What holds of no word is the same of tokens that agree. -/
theorem WordsAgree.congr (h : WordsAgree t t') {f : TokenKind → Bool}
    (hf : ∀ k : TokenKind, k.isWord → f k = false) : f t'.kind = f t.kind := by
  rcases h.2 with hk | ⟨hk, hk'⟩
  · rw [hk]
  · rw [hf _ hk, hf _ hk']

theorem WordsAgree.isTrivia_eq (h : WordsAgree t t') : t'.isTrivia = t.isTrivia :=
  h.congr fun k hk => by cases k <;> first | rfl | contradiction

theorem WordsAgree.isNameGap_eq (h : WordsAgree t t') : t'.isNameGap = t.isNameGap := by
  rw [isNameGap, isNameGap, h.isTrivia_eq, h.1]

theorem WordsAgree.endsNamespace_eq (h : WordsAgree t t') : t'.endsNamespace = t.endsNamespace :=
  h.congr (f := fun k => k == .semicolon || k == .openBrace) fun k hk => by
    cases k <;> first | rfl | contradiction

theorem WordsAgree.isNamespacePart_eq (h : WordsAgree t t') :
    t'.isNamespacePart = t.isNamespacePart := by
  have hseparator : (t'.kind == .namespaceSeparator) = (t.kind == .namespaceSeparator) :=
    h.congr (f := fun k => k == .namespaceSeparator) fun k hk => by
      cases k <;> first | rfl | contradiction
  rw [isNamespacePart, isNamespacePart, h.isWord_eq, hseparator]

theorem nameAfter?_cons (t : Token) (ts : List Token) :
    nameAfter? (t :: ts) =
      if t.isNameGap then nameAfter? ts else if t.kind.isWord then some t.text else none := by
  unfold nameAfter? firstSignificant?
  cases ht : t.isNameGap <;> simp [ht]

theorem nameAfter?_congr (h : List.Forall₂ WordsAgree ts us) : nameAfter? us = nameAfter? ts := by
  induction h with
  | nil => rfl
  | cons ht _ ih =>
    rw [nameAfter?_cons, nameAfter?_cons, ht.isNameGap_eq, ht.isWord_eq, ht.1, ih]

theorem namespaceParts_congr (h : List.Forall₂ WordsAgree ts us) :
    ((us.takeWhile fun t => !t.endsNamespace).filter isNamespacePart).map Token.text =
      ((ts.takeWhile fun t => !t.endsNamespace).filter isNamespacePart).map Token.text := by
  induction h with
  | nil => rfl
  | @cons t t' ts us ht _ ih =>
    rw [List.takeWhile_cons, List.takeWhile_cons, ht.endsNamespace_eq]
    cases t.endsNamespace with
    | true => rfl
    | false =>
      have hpart := ht.isNamespacePart_eq
      cases hp : t.isNamespacePart with
      | true => simp [hp, hpart, ht.1, ih]
      | false => simp [hp, hpart, ih]

theorem nameAt?_congr (h : List.Forall₂ WordsAgree ts us) (i : Nat) : nameAt? us i = nameAt? ts i := by
  rw [nameAt?_eq, nameAt?_eq, nameAfter?_congr (List.forall₂_drop (i + 1) h)]

theorem namespaceAt_congr (h : List.Forall₂ WordsAgree ts us) (i : Nat) :
    namespaceAt us i = namespaceAt ts i := by
  rw [namespaceAt, namespaceAt, namespaceParts_congr (List.forall₂_drop (i + 1) h)]

end WordsAgree

/-! ### One position -/

section AsName

variable {ts : List Token} {c e i j : Nat} {k : TokenKind}

theorem IsWordAt.lt_length (h : IsWordAt ts j) : j < ts.length := by
  obtain ⟨k, hk, -⟩ := h
  obtain ⟨t, ht, -⟩ := Option.map_eq_some_iff.1 hk
  exact (List.getElem?_eq_some_iff.1 ht).1

theorem length_asName : (asName ts j).length = ts.length := List.length_modify _ _ _

theorem kindAt?_asName_of_ne (h : i ≠ j) : kindAt? (asName ts j) i = kindAt? ts i := by
  simp [kindAt?, asName, h.symm]

theorem kindAt?_asName_self (h : j < ts.length) : kindAt? (asName ts j) j = some .identifier := by
  simp [kindAt?, asName, h]

theorem forall₂_asName (h : ∀ t ∈ ts[j]?, t.kind.isWord) :
    List.Forall₂ WordsAgree ts (asName ts j) := by
  induction ts generalizing j with
  | nil =>
    rw [asName, List.modify_nil]
    exact .nil
  | cons t ts ih =>
    cases j with
    | zero =>
      exact .cons ⟨rfl, Or.inr ⟨h t rfl, rfl⟩⟩ (List.forall₂_same.2 fun _ _ => ⟨rfl, Or.inl rfl⟩)
    | succ j => exact .cons ⟨rfl, Or.inl rfl⟩ (ih fun t ht => h t (by simpa using ht))

theorem IsWordAt.forall₂ (h : IsWordAt ts j) : List.Forall₂ WordsAgree ts (asName ts j) := by
  obtain ⟨k, hk, hword⟩ := h
  refine forall₂_asName fun t ht => ?_
  rw [Option.some.inj ((kindAt?_eq ht).symm.trans hk)]
  exact hword

variable (hj : IsWordAt ts j)
include hj

theorem kindAt?_asName_eq_some_iff (hk : k ≠ .identifier) :
    kindAt? (asName ts j) i = some k ↔ i ≠ j ∧ kindAt? ts i = some k := by
  by_cases hij : i = j
  · subst hij
    rw [kindAt?_asName_self hj.lt_length, Option.some.injEq]
    exact iff_of_false (Ne.symm hk) (fun h => h.1 rfl)
  · rw [kindAt?_asName_of_ne hij, and_iff_right hij]

theorem isNamed_asName_iff (hk : k ≠ .identifier) :
    IsNamed (asName ts j) k i ↔ i ≠ j ∧ IsNamed ts k i := by
  rw [IsNamed, IsNamed, kindAt?_asName_eq_some_iff hj hk, nameAt?_congr hj.forall₂, and_assoc]

theorem isNamed_classLike_asName_iff :
    IsNamed (asName ts j) .classLike i ↔ i ≠ j ∧ IsNamed ts .classLike i :=
  isNamed_asName_iff hj (by decide)

theorem functionsBetween_asName :
    functionsBetween (asName ts j) c e = (functionsBetween ts c e).filter (· ≠ j) := by
  rw [functionsBetween, functionsBetween, List.filter_filter]
  refine List.filter_congr fun i _ => ?_
  rw [← Bool.decide_and]
  refine decide_eq_decide.2 ?_
  rw [isNamed_asName_iff hj (by decide)]
  exact and_left_comm

/-- A statement elsewhere declares what it did. -/
theorem namespaceBefore_asName_of_ne (h : statementBefore? ts c ≠ some j) :
    namespaceBefore (asName ts j) c = namespaceBefore ts c := by
  have hlast : statementBefore? (asName ts j) c = statementBefore? ts c :=
    lastBefore?_eq_of_ne h fun i _ => kindAt?_asName_eq_some_iff hj (by decide)
  rw [namespaceBefore_eq, namespaceBefore_eq, hlast, funext (namespaceAt_congr hj.forall₂)]

/-- Without the last statement, the one before it declares the namespace. -/
theorem namespaceBefore_asName (h : statementBefore? ts c = some j) :
    namespaceBefore (asName ts j) c = namespaceBefore ts j := by
  have hlast : statementBefore? (asName ts j) c = statementBefore? ts j :=
    lastBefore?_of_ne h fun i _ => kindAt?_asName_eq_some_iff hj (by decide)
  rw [namespaceBefore_eq, namespaceBefore_eq, hlast, funext (namespaceAt_congr hj.forall₂)]

end AsName

end Token

end DocPages
