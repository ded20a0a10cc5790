import DocPages.Proofs.Declaration.Attachment
import DocPages.Proofs.DocBlock.ClosingMark
import DocPages.Proofs.Page.Documents
import DocPages.Proofs.Page.Groups
import DocPages.Proofs.Page.MemberEntry
import Mathlib

/-!
# Pages without comment marks

Pages show names and what documentation blocks say. In a source text names are words, and the blocks of
a declaration are tokens of the source (`isFromSource_of_scanSource`), so neither has the closing mark
of a comment. Nor does a page make one where it puts two texts together: what ends up side by side is
kept apart (`hasNoMark_append`).

Main statement: `hasNoMark_documents`, from the tokens to the documents.
-/

namespace DocPages

open Text

/-! ### The parts of a declaration -/

/-- The documentation blocks of a declaration. -/
def Declaration.blocks (d : Declaration) : List Text :=
  d.documentation.toList ++ d.members.filterMap Member.documentation

/-- The names of the declaration are those that a source file can give, and its blocks are the texts of
documentation blocks. -/
structure Declaration.IsFromSource (d : Declaration) : Prop where
  hasNames : d.HasNames
  isWord_name : ∀ m ∈ d.members, isWord m.name
  isDocText : ∀ raw ∈ d.blocks, IsDocText raw

section Source

open Token

variable {source path raw : Text} {d : Declaration}

theorem isDocText_of_isBlockFor {target : DocTarget} {b : Nat}
    (hb : IsBlockFor (tokenize source) target b) (hraw : textAt? (tokenize source) b = some raw) :
    IsDocText raw := by
  obtain ⟨t, ht, rfl⟩ := Option.map_eq_some_iff.1 hraw
  obtain ⟨t', ht', hkind⟩ := Option.map_eq_some_iff.1 hb.1
  obtain rfl : t = t' := Option.some.inj (ht.symm.trans ht')
  exact isDocText_of_mem_tokenize (List.mem_of_getElem? ht) hkind

theorem isFromSource_of_scanSource (h : (scanSource path source).declaration = some d) :
    d.IsFromSource := by
  have hnames := hasNames_of_scanSource h
  rw [scanSource, declaration_extract, described?, Option.map_eq_some_iff] at h
  obtain ⟨c, -, rfl⟩ := h
  refine ⟨hnames, fun m hm => ?_, fun raw hraw => ?_⟩
  · obtain ⟨f, hf, rfl⟩ := List.mem_map.1 hm
    obtain ⟨name, hname⟩ := Option.isSome_iff_exists.1 (mem_functionsBetween.1 hf).2.2.2
    rw [memberAt, hname]
    exact isWord_of_nameAt? hname
  · rcases List.mem_append.1 hraw with hraw | hraw
    · obtain ⟨b, hb, htext⟩ := Option.bind_eq_some_iff.1 (Option.mem_toList.1 hraw)
      exact isDocText_of_isBlockFor (isBlockFor_of_typeBlock? hb) htext
    · obtain ⟨m, hm, hdoc⟩ := List.mem_filterMap.1 hraw
      obtain ⟨f, -, rfl⟩ := List.mem_map.1 hm
      obtain ⟨b, hb, htext⟩ := Option.bind_eq_some_iff.1 hdoc
      exact isDocText_of_isBlockFor (memberBlock?_eq_some_iff.1 hb).1.2.1 htext

end Source

/-! ### Putting texts together -/

section Append

variable {a b t : Text}

/-- A text without marks that does not end in half a mark. -/
structure IsSealed (t : Text) : Prop where
  hasNoMark : HasNoMark t
  ne_star : t.getLast? ≠ some '*'

theorem isSealed_iff : IsSealed t ↔ HasNoMark t ∧ t.getLast? ≠ some '*' :=
  ⟨fun h => ⟨h.hasNoMark, h.ne_star⟩, fun h => ⟨h.1, h.2⟩⟩

instance (t : Text) : Decidable (IsSealed t) := decidable_of_iff _ isSealed_iff.symm

/-- Texts are kept apart by what one ends with, or by what the other begins with. -/
theorem hasNoMark_append (ha : HasNoMark a) (hb : HasNoMark b)
    (h : a.getLast? ≠ some '*' ∨ b.head? ≠ some '/') : HasNoMark (a ++ b) := by
  rw [hasNoMark_iff_isChain, List.isChain_append]
  refine ⟨hasNoMark_iff_isChain.1 ha, hasNoMark_iff_isChain.1 hb, ?_⟩
  rintro c hc d hd ⟨rfl, rfl⟩
  exact h.elim (fun hlast => hlast hc) fun hhead => hhead hd

theorem IsSealed.hasNoMark_append (ha : IsSealed a) (hb : HasNoMark b) : HasNoMark (a ++ b) :=
  DocPages.hasNoMark_append ha.hasNoMark hb (Or.inl ha.ne_star)

theorem IsSealed.append (ha : IsSealed a) (hb : IsSealed b) : IsSealed (a ++ b) where
  hasNoMark := ha.hasNoMark_append hb.hasNoMark
  ne_star hc := by
    rw [List.getLast?_append] at hc
    rcases Option.or_eq_some_iff.1 hc with hc | ⟨-, hc⟩
    · exact hb.ne_star hc
    · exact ha.ne_star hc

theorem isSealed_nil : IsSealed [] := by decide

theorem isSealed_flatMap {α : Type} {items : List α} {f : α → Text}
    (h : ∀ a ∈ items, IsSealed (f a)) : IsSealed (items.flatMap f) := by
  induction items with
  | nil => exact isSealed_nil
  | cons a items ih =>
    rw [List.flatMap_cons]
    exact (h a List.mem_cons_self).append (ih fun b hb => h b (List.mem_cons_of_mem _ hb))

/-- A text is sealed by what is put behind it. -/
theorem isSealed_append (ha : HasNoMark a) (hb : IsSealed b) (hne : b ≠ [])
    (hslash : b.head? ≠ some '/') : IsSealed (a ++ b) where
  hasNoMark := hasNoMark_append ha hb.hasNoMark (Or.inr hslash)
  ne_star := by
    rw [List.getLast?_append_of_ne_nil _ hne]
    exact hb.ne_star

end Append

namespace Page

open DocBlock

section Blocks

variable {t : Text}

theorem isSealed_paragraph (h : HasNoMark t) : IsSealed (paragraph t) :=
  isSealed_append h (by decide) (by decide) (by decide)

theorem isSealed_bullet (h : HasNoMark t) : IsSealed (bullet t) := by
  have hdash : IsSealed "- ".toList := by decide
  exact isSealed_append (hdash.hasNoMark_append h) (by decide) (by decide) (by decide)

theorem hasNoMark_inBackquotes (h : HasNoMark t) : HasNoMark (inBackquotes t) := by
  have hquote : IsSealed ['\x60'] := by decide
  exact hasNoMark_append (hquote.hasNoMark_append h) (by decide) (Or.inr (by decide))

theorem isSealed_listing {α : Type} {heading : Text} {line : α → Text} {items : List α}
    (hheading : HasNoMark heading) (h : ∀ a ∈ items, IsSealed (line a)) :
    IsSealed (listing heading line items) := by
  have hfeed : IsSealed ['\n'] := by decide
  exact ((isSealed_paragraph hheading).append (isSealed_flatMap h)).append hfeed

theorem isSealed_describe (h : HasNoMark t) : IsSealed (describe t) := by
  unfold describe
  split
  · exact isSealed_nil
  · exact isSealed_paragraph h

theorem isSealed_rule : IsSealed rule := by decide

end Blocks

/-! ### Documents -/

section Documents

variable {d : Declaration} {m : Member} {raw : Text} {ds : List Declaration}

theorem isSealed_tagBullets {block : DocBlock} (h : block.HasNoMarks) {tag : Text × List Text}
    (htag : tag ∈ block.tags.toList) : IsSealed (tagBullets tag) := by
  refine isSealed_flatMap fun value hvalue => isSealed_bullet ?_
  have hat : IsSealed "**@".toList := by decide
  -- The name may end in a star, but what follows it begins with one.
  have hname : IsSealed ("**@".toList ++ tag.1 ++ "** ".toList) :=
    isSealed_append (hat.hasNoMark_append (h.name tag htag)) (by decide) (by decide) (by decide)
  exact hname.hasNoMark_append (h.value tag htag value hvalue)

theorem isSealed_typeSection {block : DocBlock} (h : block.HasNoMarks) :
    IsSealed (typeSection block) := by
  have hheading : IsSealed (paragraph "## Description".toList) := by decide
  refine (hheading.append (isSealed_describe h.description)).append ?_
  split
  · exact isSealed_nil
  · exact isSealed_listing (by decide) fun tag htag => isSealed_tagBullets h htag

theorem hasNoMark_callName (h : isWord m.name) : HasNoMark (callName m) := by
  have hname : HasNoMark m.name :=
    hasNoMark_of_not_mem fun hm => absurd (isNameChar_of_mem h hm) (by decide)
  exact hasNoMark_inBackquotes (hasNoMark_append hname (by decide) (Or.inr (by decide)))

theorem isSealed_codeList {heading : Text} {items : List Text} (hheading : HasNoMark heading)
    (h : ∀ item ∈ items, HasNoMark item) : IsSealed (codeList heading items) := by
  unfold codeList
  split
  · exact isSealed_nil
  · exact isSealed_listing hheading fun item hitem =>
      isSealed_bullet (hasNoMark_inBackquotes (h item hitem))

theorem isSealed_resultLine {result : Option Text} (h : ∀ value ∈ result, HasNoMark value) :
    IsSealed (resultLine result) := by
  cases result with
  | none => exact isSealed_nil
  | some value =>
    have hheading : IsSealed "**Returns:** ".toList := by decide
    exact isSealed_paragraph (hheading.hasNoMark_append (hasNoMark_inBackquotes (h value rfl)))

theorem hasNoMark_of_mem_tagValues (h : EndsAtMark raw) {name value : Text}
    (hvalue : value ∈ tagValues name (contentLines raw)) : HasNoMark value := by
  obtain ⟨pair, hpair, rfl⟩ := List.mem_map.1 hvalue
  have hmem := (List.mem_filter.1 hpair).1
  obtain ⟨line, hline, hp⟩ := (hasTagLines_contentLines raw).exists_isTagLine hmem
  exact (hasNoMark_of_mem_contentLines h hline).of_isInfix hp.value_isInfix

theorem isSealed_memberEntry (h : isWord m.name) (hraw : ∀ raw ∈ m.documentation, EndsAtMark raw) :
    IsSealed (memberEntry m) := by
  have hmarks : IsSealed "### ".toList := by decide
  have hheading : IsSealed (paragraph ("### ".toList ++ callName m)) :=
    isSealed_paragraph (hmarks.hasNoMark_append (hasNoMark_callName h))
  obtain ⟨name, documentation⟩ := m
  cases documentation with
  | none => exact (hheading.append isSealed_nil).append isSealed_rule
  | some raw =>
    have hraw := hraw raw rfl
    have hvalues {key : Text} : ∀ value ∈ tagValues key (contentLines raw), HasNoMark value :=
      fun value hvalue => hasNoMark_of_mem_tagValues hraw hvalue
    have hparameters : IsSealed (codeList "**Parameters:**".toList
        (MemberText.ofContent (contentLines raw)).parameters) :=
      isSealed_codeList (by decide) hvalues
    have hresult : IsSealed (resultLine (MemberText.ofContent (contentLines raw)).result) :=
      isSealed_resultLine fun value hvalue => hvalues value (List.mem_of_mem_head? hvalue)
    have hexceptions : IsSealed (codeList "**Throws:**".toList
        (MemberText.ofContent (contentLines raw)).exceptions) :=
      isSealed_codeList (by decide) hvalues
    have hdescription : IsSealed (describe (MemberText.ofContent (contentLines raw)).description) := by
      rw [← ofBlock_ofText]
      exact isSealed_describe (hasNoMarks_ofText hraw).description
    rw [memberEntry_eq, ofBlock_ofText]
    exact (hheading.append (((hdescription.append hparameters).append hresult).append
      hexceptions)).append isSealed_rule

section Declarations

variable (h : d.IsFromSource)

include h

theorem hasNoMark_typeName : HasNoMark d.typeName :=
  hasNoMark_of_not_mem (h.hasNames.not_mem_typeName rfl)

theorem hasNoMark_label : HasNoMark d.label := hasNoMark_of_not_mem (h.hasNames.not_mem_label rfl)

theorem hasNoMark_qualifiedName : HasNoMark d.qualifiedName :=
  hasNoMark_of_not_mem (h.hasNames.not_mem_qualifiedName rfl)

theorem endsAtMark_of_mem_documentation (hraw : raw ∈ d.documentation) : EndsAtMark raw :=
  (h.isDocText raw (List.mem_append_left _ (Option.mem_toList.2 hraw))).endsAtMark

theorem isSealed_declarationPage : IsSealed (declarationPage d) := by
  have htitle : IsSealed "# ".toList := by decide
  have hnamespace : IsSealed "**Namespace:** ".toList := by decide
  have hfullName : IsSealed "**Full Class Name:** ".toList := by decide
  unfold declarationPage
  refine IsSealed.append (IsSealed.append (IsSealed.append (IsSealed.append ?_ ?_) ?_) ?_) ?_
  · exact isSealed_paragraph (htitle.hasNoMark_append (hasNoMark_typeName h))
  · exact isSealed_paragraph (hnamespace.hasNoMark_append (hasNoMark_inBackquotes (hasNoMark_label h)))
  · exact isSealed_paragraph
      (hfullName.hasNoMark_append (hasNoMark_inBackquotes (hasNoMark_qualifiedName h)))
  · cases hdoc : d.documentation with
    | none => exact isSealed_nil
    | some raw => exact isSealed_typeSection (hasNoMarks_ofText (endsAtMark_of_mem_documentation h hdoc))
  · split
    · exact isSealed_nil
    · have hmethods : IsSealed (paragraph "## Methods".toList) := by decide
      refine hmethods.append (isSealed_flatMap fun m hm => ?_)
      refine isSealed_memberEntry (h.isWord_name m hm) fun raw hdoc => ?_
      have hmem : raw ∈ d.blocks := List.mem_append_right _ (List.mem_filterMap.2 ⟨m, hm, hdoc⟩)
      exact (h.isDocText raw hmem).endsAtMark

theorem isSealed_link : IsSealed (link d) := by
  have hpage : HasNoMark d.pageName :=
    hasNoMark_of_not_mem fun hm => absurd (h.hasNames.mem_pageName hm) (by decide)
  have hopen : IsSealed ['['] := by decide
  have htype : IsSealed ('[' :: d.typeName ++ "](./".toList) :=
    isSealed_append (hopen.hasNoMark_append (hasNoMark_typeName h)) (by decide) (by decide) (by decide)
  exact isSealed_bullet (hasNoMark_append (htype.hasNoMark_append hpage) (by decide)
    (Or.inr (by decide)))

theorem isSealed_referenceEntry : IsSealed (referenceEntry d) := by
  have hmarks : IsSealed "## ".toList := by decide
  unfold referenceEntry
  refine IsSealed.append (IsSealed.append (IsSealed.append ?_ ?_) ?_) isSealed_rule
  · exact isSealed_paragraph (hmarks.hasNoMark_append (hasNoMark_qualifiedName h))
  · cases hdoc : d.documentation with
    | none => exact isSealed_nil
    | some raw =>
      have hraw := endsAtMark_of_mem_documentation h hdoc
      exact isSealed_describe (hasNoMarks_ofText hraw).description
  · split
    · exact isSealed_nil
    · exact isSealed_listing (by decide) fun m hm =>
        isSealed_bullet (hasNoMark_callName (h.isWord_name m hm))

end Declarations

theorem isSealed_index (h : ∀ d ∈ ds, d.IsFromSource) : IsSealed (index ds) := by
  have hfront : IsSealed (paragraph "# API Documentation".toList ++
      paragraph "Auto-generated documentation from PHPDoc comments.".toList ++
      paragraph "## Available Classes".toList) := by decide +kernel
  refine hfront.append (isSealed_flatMap fun g hg => ?_)
  obtain ⟨d, hd, hlabel⟩ := exists_label_eq_of_mem_groupByLabel ds hg
  have hmarks : IsSealed "### ".toList := by decide
  have hname : HasNoMark g.1 := hlabel ▸ hasNoMark_label (h d hd)
  exact isSealed_listing (hmarks.hasNoMark_append hname) fun e he =>
    isSealed_link (h e (mem_of_mem_groupByLabel ds hg he))

theorem isSealed_reference (h : ∀ d ∈ ds, d.IsFromSource) : IsSealed (reference ds) := by
  have hfront : IsSealed (paragraph "# Complete API Reference".toList ++
      paragraph "Complete overview of all classes, methods, and their documentation.".toList) := by
    decide +kernel
  exact hfront.append (isSealed_flatMap fun d hd => isSealed_referenceEntry (h d hd))

theorem isSealed_of_mem_documents (h : ∀ d ∈ ds, d.IsFromSource) {doc : Document}
    (hdoc : doc ∈ documents ds) : IsSealed doc.content := by
  rcases List.mem_append.1 hdoc with hdoc | hdoc
  · obtain ⟨d, hd, rfl⟩ := List.mem_map.1 hdoc
    exact isSealed_declarationPage (h d hd)
  · simp only [List.mem_cons, List.not_mem_nil, or_false] at hdoc
    rcases hdoc with rfl | rfl
    · exact isSealed_index h
    · exact isSealed_reference h

end Documents

/-- Comment marks stay out of pages. In a documentation block of a source text, closed or not, the closing
mark comes only at the end and nothing that is read from the block has it; this holds of the blocks of a
scanned declaration; and so no document of scanned declarations has the mark. -/
theorem hasNoMark_documents :
    (∀ source, ∀ t ∈ tokenize source, t.kind = .docBlock →
      (∃ body, t.text = "/*".toList ++ body ∧ EndsAtMark body) ∧ (ofText t.text).HasNoMarks) ∧
    (∀ path source d, (scanSource path source).declaration = some d →
      ∀ raw ∈ d.blocks, (ofText raw).HasNoMarks) ∧
    ∀ ds, (∀ d ∈ ds, ∃ path source, (scanSource path source).declaration = some d) →
      ∀ doc ∈ documents ds, HasNoMark doc.content := by
  refine ⟨fun source t ht hkind => ?_, fun path source d hd raw hraw => ?_, fun ds hds doc hdoc => ?_⟩
  · have hdocText := isDocText_of_mem_tokenize ht hkind
    obtain ⟨body, htext, -, hbody⟩ := hdocText.exists_body
    exact ⟨⟨body, htext, hbody⟩, hasNoMarks_ofText hdocText.endsAtMark⟩
  · have hfrom := isFromSource_of_scanSource hd
    exact hasNoMarks_ofText (hfrom.isDocText raw hraw).endsAtMark
  · refine (isSealed_of_mem_documents (fun d hd => ?_) hdoc).hasNoMark
    obtain ⟨path, source, hscan⟩ := hds d hd
    exact isFromSource_of_scanSource hscan

/-- A type with a block on one line, a member with a block on two lines whose end has a star more, and a
block without an end. -/
def threeBlocks : Text :=
  "/** A */class A\x7b/** b\n * @since 1 **/function f()\x7b\x7d\x7d/** @see c".toList

/-- The declaration in it. -/
def twoBlocks : Declaration :=
  ⟨[], ['A'], some "/** A */".toList, [⟨['f'], some "/** b\n * @since 1 **/".toList⟩], "a.php".toList⟩

theorem hasNoMark_documents_threeBlocks :
    (∃ t ∈ tokenize threeBlocks, t.kind = .docBlock ∧ t.text = "/** @see c".toList ∧
      (ofText t.text).HasNoMarks) ∧
    (scanSource "a.php".toList threeBlocks).declaration = some twoBlocks ∧
    (∀ raw ∈ ["/** A */".toList, "/** b\n * @since 1 **/".toList], (ofText raw).HasNoMarks) ∧
    ∀ doc ∈ documents [twoBlocks], HasNoMark doc.content := by
  obtain ⟨htokens, hblocks, hdocuments⟩ := hasNoMark_documents
  have hscan : (scanSource "a.php".toList threeBlocks).declaration = some twoBlocks := by cbv
  refine ⟨?_, hscan, hblocks _ _ _ hscan, hdocuments _ ?_⟩
  · have hmem : (⟨.docBlock, "/** @see c".toList, 52⟩ : Token) ∈ tokenize threeBlocks := by decide +kernel
    exact ⟨_, hmem, rfl, rfl, (htokens threeBlocks _ hmem rfl).2⟩
  · rw [List.forall_mem_singleton]
    exact ⟨_, _, hscan⟩

end Page

end DocPages
