import DocPages.Proofs.Declaration.Outline
import DocPages.Proofs.Token.Spelling

/-!
# The names of declarations

The names that a source file can give to a declaration are limited by how tokens are spelled. A type
is named by a word, and a namespace is made of name characters and backslashes.

Main statement: so it is for every declaration of a source text (`hasNames_of_scanSource`).
-/

namespace DocPages

open Token

/-- The names of the declaration are spelled as a source file can spell them. -/
structure Declaration.HasNames (d : Declaration) : Prop where
  typeName : Text.isWord d.typeName
  namespaceName : ∀ c ∈ d.namespaceName, isNameChar c ∨ c = separator

section Names

variable {source name : Text} {i : Nat} {c : Char}

theorem isWord_of_nameAt? (h : nameAt? (tokenize source) i = some name) : Text.isWord name := by
  simp only [nameAt?, Option.bind_eq_some_iff] at h
  obtain ⟨t, ⟨j, -, ht⟩, h⟩ := h
  split at h
  · next hk =>
    rw [← Option.some.inj h]
    exact (isSpelled_of_mem_tokenize (List.mem_of_getElem? ht)).word hk
  · contradiction

theorem mem_namespaceAt (h : c ∈ namespaceAt (tokenize source) i) :
    isNameChar c ∨ c = separator := by
  obtain ⟨text, htext, hc⟩ := List.mem_flatten.1 (Text.mem_of_mem_trim h)
  obtain ⟨t, ht, rfl⟩ := List.mem_map.1 htext
  obtain ⟨ht, hpart⟩ := List.mem_filter.1 ht
  have hspelled := isSpelled_of_mem_tokenize
    (List.mem_of_mem_drop ((List.takeWhile_sublist _).subset ht))
  rw [isNamespacePart, Bool.or_eq_true, beq_iff_eq] at hpart
  rcases hpart with hk | hk
  · exact Or.inl (Text.isNameChar_of_mem (hspelled.word hk) hc)
  · rw [hspelled.mark hk] at hc
    exact Or.inr (List.mem_singleton.1 hc)

theorem mem_namespaceBefore {k : Nat} (h : c ∈ namespaceBefore (tokenize source) k) :
    isNameChar c ∨ c = separator := by
  rw [namespaceBefore] at h
  cases hl : lastBefore? (fun i => kindAt? (tokenize source) i = some .namespaceWord) k with
  | none => simp [hl] at h
  | some i =>
    rw [hl] at h
    exact mem_namespaceAt h

end Names

/-- A source file names its declaration with words. -/
theorem hasNames_of_scanSource {path source : Text} {d : Declaration}
    (h : (scanSource path source).declaration = some d) : d.HasNames := by
  rw [scanSource, declaration_extract, described?, Option.map_eq_some_iff] at h
  obtain ⟨c, hc, rfl⟩ := h
  obtain ⟨name, hname⟩ := Option.isSome_iff_exists.1 (firstType?_eq_some_iff.1 hc).1.2
  refine ⟨?_, fun e he => mem_namespaceBefore he⟩
  rw [declarationAt, hname]
  exact isWord_of_nameAt? hname

end DocPages
