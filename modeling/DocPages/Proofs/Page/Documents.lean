import DocPages.Page
import DocPages.Proofs.Declaration.Names
import Mathlib.Data.List.Forall2
import Mathlib.Data.List.Nodup

/-!
# The documents of some declarations

Documents have to be told apart by their file names, because a document is written over another one
of its name. The file name of a page has a low line both where the qualified name has one and where
it has a backslash, so the pages of two names that differ in nothing else clash (`NamesClash`), and
the page of a global type called `index` clashes with the index. Nothing else clashes
(`nodup_fileName_documents_iff`). The contents always differ (`nodup_content_documents`).
-/

namespace DocPages

open Page

/-! ### Clashing names -/

/-- The characters agree, or each is a backslash or a low line. -/
def MarksClash (a b : Char) : Prop :=
  a = b ∨ (a = separator ∨ a = '_') ∧ (b = separator ∨ b = '_')

/-- The names agree, except that one may have a backslash where the other has a low line. -/
def NamesClash (s t : Text) : Prop := List.Forall₂ MarksClash s t

/-- No two declarations have clashing names, and none is called like the index. -/
structure HaveOwnPages (ds : List Declaration) : Prop where
  apart : ds.Pairwise fun d e => ¬ NamesClash d.qualifiedName e.qualifiedName
  ne_index : ∀ d ∈ ds, d.qualifiedName ≠ "index".toList

/-- The character that a page name has for a character of the qualified name. -/
def pageChar (c : Char) : Char := if c = separator then '_' else c

theorem pageChar_eq_iff {a b : Char} : pageChar a = pageChar b ↔ MarksClash a b := by
  constructor
  · intro h
    unfold pageChar at h
    split at h <;> split at h
    · next ha hb => exact Or.inl (ha.trans hb.symm)
    · next ha _ => exact Or.inr ⟨Or.inl ha, Or.inr h.symm⟩
    · next _ hb => exact Or.inr ⟨Or.inr h, Or.inl hb⟩
    · exact Or.inl h
  · rintro (rfl | ⟨ha, hb⟩)
    · rfl
    · rcases ha with rfl | rfl <;> rcases hb with rfl | rfl <;> rfl

/-- A name without marks clashes with no other one. -/
theorem NamesClash.eq_of_forall_ne {s t : Text} (h : NamesClash s t)
    (ht : ∀ c ∈ t, c ≠ separator ∧ c ≠ '_') : s = t := by
  induction h with
  | nil => rfl
  | @cons a b s t hab _ ih =>
    have hb := ht b List.mem_cons_self
    have heq : a = b := hab.resolve_right fun hm => hm.2.elim hb.1 hb.2
    rw [heq, ih fun c hc => ht c (List.mem_cons_of_mem _ hc)]

namespace Declaration

variable {d e : Declaration}

theorem pageName_eq (d : Declaration) : d.pageName = d.qualifiedName.map pageChar ++ ".md".toList :=
  rfl

theorem map_pageChar_eq_iff {s t : Text} : s.map pageChar = t.map pageChar ↔ NamesClash s t := by
  rw [NamesClash, ← List.forall₂_eq_eq_eq, List.forall₂_map_left_iff, List.forall₂_map_right_iff]
  simp only [pageChar_eq_iff]

/-- Two pages have the same file name exactly when the names clash. -/
theorem pageName_eq_iff : d.pageName = e.pageName ↔ NamesClash d.qualifiedName e.qualifiedName := by
  rw [pageName_eq, pageName_eq, List.append_left_inj, map_pageChar_eq_iff]

/-- The page of a type takes the place of the index exactly when it is called like it. -/
theorem pageName_eq_indexName_iff : d.pageName = indexName ↔ d.qualifiedName = "index".toList := by
  have hindex : indexName = "index".toList.map pageChar ++ ".md".toList := rfl
  have hplain : ∀ c ∈ ['i', 'n', 'd', 'e', 'x'], c ≠ separator ∧ c ≠ '_' := by simp [separator]
  rw [pageName_eq, hindex, List.append_left_inj, map_pageChar_eq_iff]
  constructor
  · intro h
    exact h.eq_of_forall_ne hplain
  · intro h
    rw [h]
    exact List.forall₂_same.2 fun c _ => Or.inl rfl

theorem HasNames.qualifiedName_ne_nil (h : d.HasNames) : d.qualifiedName ≠ [] := by
  intro hnil
  unfold qualifiedName at hnil
  split at hnil
  · have hword := h.typeName
    rw [hnil] at hword
    exact absurd hword (by decide)
  · simp at hnil

theorem HasNames.mem_qualifiedName (h : d.HasNames) {c : Char} (hc : c ∈ d.qualifiedName) :
    isNameChar c ∨ c = separator := by
  unfold qualifiedName at hc
  split at hc
  · exact Or.inl (Text.isNameChar_of_mem h.typeName hc)
  · rcases List.mem_append.1 hc with hc | hc
    · exact h.namespaceName c hc
    · rcases List.mem_cons.1 hc with rfl | hc
      · exact Or.inr rfl
      · exact Or.inl (Text.isNameChar_of_mem h.typeName hc)

theorem HasNames.mem_pageName (h : d.HasNames) {c : Char} (hc : c ∈ d.pageName) :
    isNameChar c ∨ c = '.' := by
  rw [pageName_eq] at hc
  rcases List.mem_append.1 hc with hc | hc
  · obtain ⟨a, ha, rfl⟩ := List.mem_map.1 hc
    refine Or.inl ?_
    unfold pageChar
    split
    · rfl
    · next hne => exact (h.mem_qualifiedName ha).resolve_right hne
  · have hc' : c ∈ ['.', 'm', 'd'] := hc
    simp only [List.mem_cons, List.not_mem_nil, or_false] at hc'
    rcases hc' with rfl | rfl | rfl
    · exact Or.inr rfl
    · exact Or.inl rfl
    · exact Or.inl rfl

theorem HasNames.pageName_ne_referenceName (h : d.HasNames) : d.pageName ≠ referenceName := by
  intro he
  have hmem : '-' ∈ d.pageName := by
    rw [he]
    decide
  rcases h.mem_pageName hmem with hc | hc
  · exact absurd hc (by decide)
  · exact absurd hc (by decide)

end Declaration

/-- The file names of the documents are distinct exactly when every declaration has its own page. -/
theorem nodup_fileName_documents_iff {ds : List Declaration} (h : ∀ d ∈ ds, d.HasNames) :
    ((documents ds).map Document.fileName).Nodup ↔ HaveOwnPages ds := by
  have hmap : (documents ds).map Document.fileName =
      ds.map Declaration.pageName ++ [indexName, referenceName] := by
    simp [documents]
  have hfixed : [indexName, referenceName].Nodup := by decide
  have hpages : (ds.map Declaration.pageName).Nodup ↔
      ds.Pairwise fun d e => ¬ NamesClash d.qualifiedName e.qualifiedName := by
    rw [List.Nodup, List.pairwise_map]
    simp only [ne_eq, Declaration.pageName_eq_iff]
  have hcross : (∀ a ∈ ds.map Declaration.pageName, ∀ b ∈ [indexName, referenceName], a ≠ b) ↔
      ∀ d ∈ ds, d.qualifiedName ≠ "index".toList := by
    rw [List.forall_mem_map]
    refine forall₂_congr fun d hd => ?_
    have hreference := (h d hd).pageName_ne_referenceName
    simp [Declaration.pageName_eq_indexName_iff, hreference]
  rw [hmap, List.nodup_append, hpages, hcross]
  constructor
  · rintro ⟨hapart, -, hindex⟩
    exact ⟨hapart, hindex⟩
  · rintro ⟨hapart, hindex⟩
    exact ⟨hapart, hfixed, hindex⟩

/-! ### Contents -/

theorem paragraph_append (t rest : Text) : paragraph t ++ rest = t ++ '\n' :: '\n' :: rest := by
  rw [paragraph, List.append_assoc]
  rfl

theorem inBackquotes_append (t rest : Text) :
    Text.inBackquotes t ++ rest = '\x60' :: (t ++ '\x60' :: rest) := by
  rw [Text.inBackquotes, List.append_assoc]
  rfl

/-- A page opens with the type, the namespace label and the qualified name. -/
theorem exists_declarationPage_eq (d : Declaration) : ∃ rest, declarationPage d =
    "# ".toList ++ (d.typeName ++ '\n' :: '\n' ::
      ("**Namespace:** ".toList ++ '\x60' :: (d.label ++ '\x60' :: '\n' :: '\n' ::
        ("**Full Class Name:** ".toList ++ '\x60' :: (d.qualifiedName ++ '\x60' :: rest))))) := by
  unfold declarationPage
  simp only [List.append_assoc]
  simp only [paragraph_append, List.append_assoc, inBackquotes_append]
  exact ⟨_, rfl⟩

/-- The texts of the two lists begin with titles that are no names. -/
theorem exists_index_eq (ds : List Declaration) :
    ∃ rest, index ds = "# ".toList ++ ("API Documentation".toList ++ '\n' :: rest) := by
  have htitle : "# API Documentation".toList = "# ".toList ++ "API Documentation".toList := rfl
  unfold index
  simp only [List.append_assoc]
  simp only [paragraph_append, List.append_assoc, htitle]
  exact ⟨_, rfl⟩

theorem exists_reference_eq (ds : List Declaration) :
    ∃ rest, reference ds = "# ".toList ++ ("Complete API Reference".toList ++ '\n' :: rest) := by
  have htitle : "# Complete API Reference".toList = "# ".toList ++ "Complete API Reference".toList :=
    rfl
  unfold reference
  simp only [List.append_assoc]
  simp only [paragraph_append, List.append_assoc, htitle]
  exact ⟨_, rfl⟩

namespace Declaration

variable {d e : Declaration}

theorem HasNames.not_mem_typeName (h : d.HasNames) {c : Char} (hc : isNameChar c = false) :
    c ∉ d.typeName := by
  intro hm
  have := Text.isNameChar_of_mem h.typeName hm
  simp [hc] at this

theorem HasNames.not_mem_qualifiedName (h : d.HasNames) {c : Char}
    (hc : (isNameChar c || c == separator) = false) : c ∉ d.qualifiedName := by
  intro hm
  have := h.mem_qualifiedName hm
  simp at hc
  simp [hc] at this

theorem HasNames.not_mem_label (h : d.HasNames) {c : Char}
    (hc : (isNameChar c || c == separator) = false) : c ∉ d.label := by
  intro hm
  unfold label at hm
  split at hm
  · have hglobal : globalLabel.all isNameChar := by decide
    have := List.all_eq_true.1 hglobal c hm
    simp [this] at hc
  · have := h.namespaceName c hm
    simp at hc
    simp [hc] at this

/-- Declarations with equal pages have the same qualified name. -/
theorem qualifiedName_eq_of_declarationPage_eq (hd : d.HasNames) (he : e.HasNames)
    (h : declarationPage d = declarationPage e) : d.qualifiedName = e.qualifiedName := by
  obtain ⟨r, hr⟩ := exists_declarationPage_eq d
  obtain ⟨r', hr'⟩ := exists_declarationPage_eq e
  rw [hr, hr', List.append_cancel_left_eq] at h
  have htype := (Text.cut_inj (hd.not_mem_typeName rfl) (he.not_mem_typeName rfl) h).2
  simp only [List.cons.injEq, true_and, List.append_cancel_left_eq] at htype
  have hlabel := (Text.cut_inj (hd.not_mem_label rfl) (he.not_mem_label rfl) htype).2
  simp only [List.cons.injEq, true_and, List.append_cancel_left_eq] at hlabel
  exact (Text.cut_inj (hd.not_mem_qualifiedName rfl) (he.not_mem_qualifiedName rfl) hlabel).1

/-- A page differs from every text whose title is no name. -/
theorem declarationPage_ne (hd : d.HasNames) {title rest : Text} (hline : '\n' ∉ title)
    (htitle : ¬ Text.isWord title) : declarationPage d ≠ "# ".toList ++ (title ++ '\n' :: rest) := by
  intro h
  obtain ⟨r, hr⟩ := exists_declarationPage_eq d
  rw [hr, List.append_cancel_left_eq] at h
  have hname := (Text.cut_inj (hd.not_mem_typeName rfl) hline h).1
  exact htitle (hname ▸ hd.typeName)

end Declaration

/-- The contents of the documents are distinct. -/
theorem nodup_content_documents {ds : List Declaration} (h : ∀ d ∈ ds, d.HasNames)
    (hn : (ds.map Declaration.qualifiedName).Nodup) :
    ((documents ds).map Document.content).Nodup := by
  have hmap : (documents ds).map Document.content =
      ds.map declarationPage ++ [index ds, reference ds] := by
    simp [documents]
  obtain ⟨r, hindex⟩ := exists_index_eq ds
  obtain ⟨r', hreference⟩ := exists_reference_eq ds
  have hfixed : index ds ≠ reference ds := by
    rw [hindex, hreference, ne_eq, List.append_cancel_left_eq]
    intro he
    have hhead : some 'A' = some 'C' := congrArg List.head? he
    exact absurd hhead (by decide)
  have hpages : (ds.map declarationPage).Nodup := by
    refine List.Nodup.map_on ?_ (hn.of_map _)
    intro d hd e he hde
    exact List.inj_on_of_nodup_map hn hd he
      (Declaration.qualifiedName_eq_of_declarationPage_eq (h d hd) (h e he) hde)
  have hcross : ∀ a ∈ ds.map declarationPage, ∀ b ∈ [index ds, reference ds], a ≠ b := by
    rw [List.forall_mem_map]
    intro d hd b hb
    simp only [List.mem_cons, List.not_mem_nil, or_false] at hb
    rcases hb with rfl | rfl
    · rw [hindex]
      exact Declaration.declarationPage_ne (h d hd) (by decide) (by decide)
    · rw [hreference]
      exact Declaration.declarationPage_ne (h d hd) (by decide) (by decide)
  rw [hmap, List.nodup_append]
  exact ⟨hpages, by simpa using hfixed, hcross⟩

end DocPages
