import DocPages.Proofs.Declaration.Names
import DocPages.Proofs.Page.Documents
import DocPages.Proofs.Page.Groups
import DocPages.Proofs.Text.Trim
import Mathlib

/-!
# Reading the index

The index is a row of lines (`lines_index`). A line that is a link and nothing else (`IsLinkLine`)
stands there for each declaration, with the file name of its page as its target, and no other line has
a character that links are made of (`hasLinkLines_indexLines`). So the headings and links can be read
back (`readOutline`), and what is read are the groups of the declarations (`readOutline_index`).

All of this rests on the names: those that a source file can give have none of the characters that
would end a line, a heading or a link.

Main statement: `index_outline`.
-/

namespace DocPages.Page

open Text

/-! ### Links -/

/-- The characters that links are made of. -/
def isLinkMark (c : Char) : Bool := ['[', ']', '(', ')', '<', '>'].contains c

/-- The line is a list item with one link and nothing else. -/
structure IsLinkLine (line name target : Text) : Prop where
  eq : line = "- [".toList ++ (name ++ ("](".toList ++ (target ++ ")".toList)))
  name_plain : ∀ c ∈ name, isLinkMark c = false
  target_plain : ∀ c ∈ target, isLinkMark c = false

/-- The link lines of a row of lines, one after the other, have the given names and targets, and in
the other lines there is no link. -/
inductive HasLinkLines : List Text → List (Text × Text) → Prop
  | nil : HasLinkLines [] []
  | link {line name target : Text} {lines : List Text} {links : List (Text × Text)} :
    IsLinkLine line name target → HasLinkLines lines links →
      HasLinkLines (line :: lines) ((name, target) :: links)
  | plain {line : Text} {lines : List Text} {links : List (Text × Text)} :
    (∀ c ∈ line, isLinkMark c = false) → HasLinkLines lines links →
      HasLinkLines (line :: lines) links

section Links

variable {lines lines' : List Text} {links links' : List (Text × Text)}

theorem HasLinkLines.append (h : HasLinkLines lines links) (h' : HasLinkLines lines' links') :
    HasLinkLines (lines ++ lines') (links ++ links') := by
  induction h with
  | nil => exact h'
  | link hline _ ih => exact .link hline ih
  | plain hline _ ih => exact .plain hline ih

theorem hasLinkLines_of_plain (h : ∀ line ∈ lines, line.any isLinkMark = false) :
    HasLinkLines lines [] := by
  induction lines with
  | nil => exact .nil
  | cons line lines ih =>
    have hline : ∀ c ∈ line, isLinkMark c = false := by simpa using h line List.mem_cons_self
    exact .plain hline (ih fun l hl => h l (List.mem_cons_of_mem _ hl))

theorem hasLinkLines_flatMap {α : Type} {items : List α} {f : α → List Text}
    {g : α → List (Text × Text)} (h : ∀ a ∈ items, HasLinkLines (f a) (g a)) :
    HasLinkLines (items.flatMap f) (items.flatMap g) := by
  induction items with
  | nil => exact .nil
  | cons a items ih =>
    rw [List.flatMap_cons, List.flatMap_cons]
    exact (h a List.mem_cons_self).append (ih fun b hb => h b (List.mem_cons_of_mem _ hb))

end Links

/-! ### The lines of the index -/

/-- The name and the target of the link to the page of a declaration. -/
def linkTo (d : Declaration) (page : Document) : Text × Text :=
  (d.typeName, "./".toList ++ page.fileName)

/-- The line with the link to the page of a declaration. -/
def linkLine (d : Declaration) : Text :=
  "- [".toList ++ (d.typeName ++ ("](".toList ++ ("./".toList ++ d.pageName ++ ")".toList)))

/-- The heading of a group. -/
def groupHeading (label : Text) : Text := "### ".toList ++ label

/-- The lines of a group. -/
def groupLines (g : Text × List Declaration) : List Text :=
  [groupHeading g.1, []] ++ g.2.map linkLine ++ [[]]

/-- The lines in front of the groups. -/
def titleLines : List Text :=
  ["# API Documentation".toList, [], "Auto-generated documentation from PHPDoc comments.".toList, [],
    "## Available Classes".toList, []]

/-- The lines of the index. -/
def indexLines (ds : List Declaration) : List Text :=
  titleLines ++ (groupByLabel ds).flatMap groupLines

theorem unlines_append (ls ms : List Text) : unlines (ls ++ ms) = unlines ls ++ unlines ms :=
  List.flatMap_append

theorem link_eq_unlines (d : Declaration) : link d = unlines [linkLine d] := by
  simp [link, bullet, linkLine, unlines]

theorem groupSection_eq_unlines (g : Text × List Declaration) :
    groupSection g = unlines (groupLines g) := by
  have hlinks : g.2.flatMap link = unlines (g.2.map linkLine) := by
    rw [unlines, List.flatMap_map]
    exact List.flatMap_congr fun d _ => (link_eq_unlines d).trans (List.append_nil _)
  rw [groupSection, listing, hlinks, groupLines, unlines_append, unlines_append]
  simp [paragraph, unlines, groupHeading]

theorem index_eq_unlines (ds : List Declaration) : index ds = unlines (indexLines ds) := by
  have hgroups : (groupByLabel ds).flatMap groupSection =
      unlines ((groupByLabel ds).flatMap groupLines) := by
    rw [unlines, List.flatMap_assoc]
    exact List.flatMap_congr fun g _ => groupSection_eq_unlines g
  rw [index, hgroups, indexLines, unlines_append]
  simp [paragraph, unlines, titleLines]

section Names

variable {d : Declaration} {ds : List Declaration} {line : Text}

theorem isNameChar_eq_false_of_isLinkMark {c : Char} (h : isLinkMark c) :
    isNameChar c = false ∧ c ≠ separator ∧ c ≠ '.' ∧ c ≠ '/' := by
  simp only [isLinkMark, List.contains_eq_mem, List.mem_cons, List.not_mem_nil, or_false,
    decide_eq_true_eq] at h
  rcases h with rfl | rfl | rfl | rfl | rfl | rfl <;> decide

theorem isLinkMark_of_mem_typeName (h : d.HasNames) : ∀ c ∈ d.typeName, isLinkMark c = false := by
  intro c hc
  by_contra hmark
  have hname := isNameChar_eq_false_of_isLinkMark (by simpa using hmark)
  exact h.not_mem_typeName hname.1 hc

theorem isLinkMark_of_mem_label (h : d.HasNames) : ∀ c ∈ d.label, isLinkMark c = false := by
  intro c hc
  by_contra hmark
  have hname := isNameChar_eq_false_of_isLinkMark (by simpa using hmark)
  exact h.not_mem_label (by simp [hname.1, hname.2.1]) hc

theorem isLinkMark_of_mem_target (h : d.HasNames) :
    ∀ c ∈ "./".toList ++ d.pageName, isLinkMark c = false := by
  intro c hc
  by_contra hmark
  have hname := isNameChar_eq_false_of_isLinkMark (by simpa using hmark)
  rcases List.mem_append.1 hc with hc | hc
  · simp [hname.2.2] at hc
  · simpa [hname.1, hname.2.2.1] using h.mem_pageName hc

theorem isLinkLine_linkLine (h : d.HasNames) :
    IsLinkLine (linkLine d) d.typeName ("./".toList ++ d.pageName) :=
  ⟨rfl, isLinkMark_of_mem_typeName h, isLinkMark_of_mem_target h⟩

theorem not_mem_linkLine (h : d.HasNames) {c : Char} (hc : isNameChar c = false)
    (hfixed : c ∉ "- [](./)".toList) : c ∉ linkLine d := by
  intro hmem
  have hdot : c ≠ '.' := by rintro rfl; exact hfixed (by decide)
  have hpage : c ∉ d.pageName := fun hm => by simpa [hc, hdot] using h.mem_pageName hm
  simp [linkLine, h.not_mem_typeName hc, hpage] at hmem
  simp [hmem] at hfixed

end Names

section Lines

variable {ds : List Declaration}

/-- The lines of the index end where they should: no name has a line break. -/
theorem not_mem_of_mem_indexLines (h : ∀ d ∈ ds, d.HasNames) {line : Text}
    (hline : line ∈ indexLines ds) : '\n' ∉ line ∧ '\r' ∉ line := by
  rcases List.mem_append.1 hline with hline | hline
  · have htitle : ∀ line ∈ titleLines, '\n' ∉ line ∧ '\r' ∉ line := by decide
    exact htitle line hline
  obtain ⟨g, hg, hline⟩ := List.mem_flatMap.1 hline
  simp only [groupLines, List.cons_append, List.nil_append, List.mem_cons, List.mem_append,
    List.mem_map, List.not_mem_nil, or_false] at hline
  obtain ⟨d, hd, hd'⟩ := exists_label_eq_of_mem_groupByLabel ds hg
  rcases hline with rfl | rfl | ⟨d, hd, rfl⟩ | rfl
  · rw [groupHeading, ← hd']
    simp [(h d hd).not_mem_label (c := '\n') rfl, (h d hd).not_mem_label (c := '\r') rfl]
  · simp
  · have hnames := h d (mem_of_mem_groupByLabel ds hg hd)
    exact ⟨not_mem_linkLine hnames rfl (by decide), not_mem_linkLine hnames rfl (by decide)⟩
  · simp

theorem lines_index (h : ∀ d ∈ ds, d.HasNames) : lines (index ds) = indexLines ds := by
  have hbreaks : ∀ line ∈ indexLines ds, '\n' ∉ line ∧ '\r' ∉ line :=
    fun _ hline => not_mem_of_mem_indexLines h hline
  rw [index_eq_unlines, ← List.append_nil (unlines _),
    lines_unlines_append fun line hline => (hbreaks line hline).1]
  have hreturn : ∀ line ∈ indexLines ds, dropReturn line = id line := by
    intro line hline
    refine withoutEnd_of_not_isSuffix fun hsuffix => (hbreaks line hline).2 (hsuffix.subset ?_)
    exact List.mem_cons_self
  rw [List.map_congr_left hreturn, List.map_id]
  exact List.append_nil _

/-- Each declaration has its link line, in the order of the groups, and no other line has a link. -/
theorem hasLinkLines_indexLines (h : ∀ d ∈ ds, d.HasNames) :
    HasLinkLines (indexLines ds) ((Groups.declarations (groupByLabel ds)).map fun d =>
      (d.typeName, "./".toList ++ d.pageName)) := by
  have htitle : HasLinkLines titleLines [] := hasLinkLines_of_plain (by decide)
  have hempty : HasLinkLines [[]] [] := hasLinkLines_of_plain (by decide)
  rw [indexLines, Groups.declarations, List.map_flatMap]
  refine htitle.append (hasLinkLines_flatMap fun g hg => ?_)
  obtain ⟨d, hd, hd'⟩ := exists_label_eq_of_mem_groupByLabel ds hg
  have hheading : ∀ c ∈ groupHeading g.1, isLinkMark c = false := by
    intro c hc
    rcases List.mem_append.1 hc with hc | hc
    · have hmarks : "### ".toList.any isLinkMark = false := by decide
      exact Bool.eq_false_iff.2 (List.any_eq_false.1 hmarks c hc)
    · exact isLinkMark_of_mem_label (h d hd) c (hd' ▸ hc)
  have hlinks : HasLinkLines (g.2.map linkLine)
      (g.2.map fun d => (d.typeName, "./".toList ++ d.pageName)) := by
    rw [List.map_eq_flatMap, List.map_eq_flatMap]
    exact hasLinkLines_flatMap fun d hd =>
      .link (isLinkLine_linkLine (h d (mem_of_mem_groupByLabel ds hg hd))) .nil
  have hlines := HasLinkLines.plain hheading (hempty.append (hlinks.append hempty))
  simpa [groupLines] using hlines

end Lines

/-! ### Reading back -/

/-- The label of a line that is the heading of a group. -/
def labelOfLine? (line : Text) : Option Text := "### ".toList.isPrefixOf? line

/-- The name and the target of a link line. -/
def linkOfLine? (line : Text) : Option (Text × Text) :=
  ("- [".toList.isPrefixOf? line).bind fun rest =>
    let name := rest.takeWhile fun c => !isLinkMark c
    ("](".toList.isPrefixOf? (rest.dropWhile fun c => !isLinkMark c)).bind fun rest =>
      let target := rest.takeWhile fun c => !isLinkMark c
      if (rest.dropWhile fun c => !isLinkMark c) = ")".toList then some (name, target) else none

/-- What the end of an index says: the links in front of its first heading, and under each heading the
names and page files of its links. -/
structure Outline where
  links : List (Text × Text)
  groups : List (Text × List (Text × Text))
  deriving DecidableEq, Repr

/-- Puts a line in front of what has been read. -/
def Outline.readLine (line : Text) (read : Outline) : Outline :=
  match labelOfLine? line, linkOfLine? line with
  | some label, _ => ⟨[], (label, read.links) :: read.groups⟩
  | none, some link => ⟨(link.1, withoutStart "./".toList link.2) :: read.links, read.groups⟩
  | none, none => read

/-- Reads the groups of an index, each with the names and page files of its declarations. -/
def readOutline (t : Text) : List (Text × List (Text × Text)) :=
  ((lines t).foldr Outline.readLine ⟨[], []⟩).groups

/-- The labels of some declarations, each with the names and page files of its declarations. -/
def outline (ds : List Declaration) : List (Text × List (Text × Text)) :=
  (groupByLabel ds).map fun g => (g.1, g.2.map fun d => (d.typeName, d.pageName))

section Reading

variable {d : Declaration} {ds : List Declaration} {line name target : Text}

theorem IsLinkLine.linkOfLine?_eq (h : IsLinkLine line name target) :
    linkOfLine? line = some (name, target) := by
  have hname : ∀ c ∈ name, !isLinkMark c := fun c hc => by simp [h.name_plain c hc]
  have htarget : ∀ c ∈ target, !isLinkMark c := fun c hc => by simp [h.target_plain c hc]
  have hbracket (rest : Text) : ∀ c ∈ ("](".toList ++ rest).head?, (!isLinkMark c) = false := by
    simp [isLinkMark]
  have hclose : ∀ c ∈ ")".toList.head?, (!isLinkMark c) = false := by simp [isLinkMark]
  rw [linkOfLine?, h.eq, List.isPrefixOf?_eq_some_iff_append_eq.2 rfl, Option.bind_some]
  simp only [takeWhile_append_of_boundary hname (hbracket _),
    dropWhile_append_of_boundary hname (hbracket _)]
  rw [List.isPrefixOf?_eq_some_iff_append_eq.2 rfl, Option.bind_some]
  simp only [takeWhile_append_of_boundary htarget hclose,
    dropWhile_append_of_boundary htarget hclose, if_true]

theorem readLine_linkLine (h : d.HasNames) (read : Outline) :
    read.readLine (linkLine d) = ⟨(d.typeName, d.pageName) :: read.links, read.groups⟩ := by
  have hlabel : labelOfLine? (linkLine d) = none := rfl
  rw [Outline.readLine, hlabel, (isLinkLine_linkLine h).linkOfLine?_eq]
  simp only [withoutStart_append]

theorem readLine_groupHeading (label : Text) (read : Outline) :
    read.readLine (groupHeading label) = ⟨[], (label, read.links) :: read.groups⟩ := by
  have hlabel : labelOfLine? (groupHeading label) = some label :=
    List.isPrefixOf?_eq_some_iff_append_eq.2 rfl
  rw [Outline.readLine, hlabel]

theorem readLine_plain (hlabel : labelOfLine? line = none) (hlink : linkOfLine? line = none)
    (read : Outline) : read.readLine line = read := by
  rw [Outline.readLine, hlabel, hlink]

theorem foldr_readLine_plain {ls : List Text}
    (h : ∀ line ∈ ls, labelOfLine? line = none ∧ linkOfLine? line = none) (read : Outline) :
    ls.foldr Outline.readLine read = read := by
  induction ls with
  | nil => rfl
  | cons line ls ih =>
    rw [List.foldr_cons, ih fun l hl => h l (List.mem_cons_of_mem _ hl)]
    exact readLine_plain (h line List.mem_cons_self).1 (h line List.mem_cons_self).2 read

theorem foldr_readLine_linkLine (h : ∀ d ∈ ds, d.HasNames) (read : Outline) :
    (ds.map linkLine).foldr Outline.readLine read =
      ⟨ds.map (fun d => (d.typeName, d.pageName)) ++ read.links, read.groups⟩ := by
  induction ds with
  | nil => rfl
  | cons d ds ih =>
    rw [List.map_cons, List.foldr_cons, ih fun e he => h e (List.mem_cons_of_mem _ he),
      readLine_linkLine (h d List.mem_cons_self)]
    rfl

/-- The lines of a group are read as one group, if no link stands behind them without a heading. -/
theorem foldr_readLine_groupLines {g : Text × List Declaration} (h : ∀ d ∈ g.2, d.HasNames)
    (groups : List (Text × List (Text × Text))) :
    (groupLines g).foldr Outline.readLine ⟨[], groups⟩ =
      ⟨[], (g.1, g.2.map fun d => (d.typeName, d.pageName)) :: groups⟩ := by
  have hempty (read : Outline) : [[]].foldr Outline.readLine read = read :=
    foldr_readLine_plain (by decide) read
  have hlines : groupLines g = groupHeading g.1 :: ([[]] ++ (g.2.map linkLine ++ [[]])) := by
    simp [groupLines]
  rw [hlines, List.foldr_cons, List.foldr_append, List.foldr_append, hempty, hempty,
    foldr_readLine_linkLine h, readLine_groupHeading, List.append_nil]

/-- Reading the index gives the groups of the declarations. -/
theorem readOutline_index (h : ∀ d ∈ ds, d.HasNames) : readOutline (index ds) = outline ds := by
  have hgroups (gs : Groups) (hgs : ∀ g ∈ gs, ∀ d ∈ g.2, d.HasNames) :
      (gs.flatMap groupLines).foldr Outline.readLine ⟨[], []⟩ =
        ⟨[], gs.map fun g => (g.1, g.2.map fun d => (d.typeName, d.pageName))⟩ := by
    induction gs with
    | nil => rfl
    | cons g gs ih =>
      rw [List.flatMap_cons, List.foldr_append, ih fun g' hg' => hgs g' (List.mem_cons_of_mem _ hg'),
        foldr_readLine_groupLines (hgs g List.mem_cons_self), List.map_cons]
  have hall : ∀ g ∈ groupByLabel ds, ∀ d ∈ g.2, d.HasNames :=
    fun g hg d hd => h d (mem_of_mem_groupByLabel ds hg hd)
  rw [readOutline, lines_index h, indexLines, List.foldr_append, hgroups _ hall,
    foldr_readLine_plain (by decide)]
  rfl

end Reading

/-! ### Scanned names -/

theorem zipWith_linkTo_documents (ds : List Declaration) :
    List.zipWith linkTo ds (documents ds) =
      ds.map fun d => (d.typeName, "./".toList ++ d.pageName) := by
  have hzip (docs : List Document) (ds : List Declaration) :
      List.zipWith linkTo ds (ds.map (fun d => ⟨d.pageName, declarationPage d⟩) ++ docs) =
        ds.map fun d => (d.typeName, "./".toList ++ d.pageName) := by
    induction ds with
    | nil => rfl
    | cons d ds ih => rw [List.map_cons, List.cons_append, List.zipWith_cons_cons, ih]; rfl
  exact hzip _ ds

/-- Some source file declares a type of this name in this namespace. -/
def HasScannedNames (d : Declaration) : Prop :=
  ∃ path source e, (scanSource path source).declaration = some e ∧
    e.typeName = d.typeName ∧ e.namespaceName = d.namespaceName

theorem HasScannedNames.hasNames {d : Declaration} (h : HasScannedNames d) : d.HasNames := by
  obtain ⟨path, source, e, he, htype, hnamespace⟩ := h
  obtain ⟨hword, hchars⟩ := hasNames_of_scanSource he
  exact ⟨htype ▸ hword, hnamespace ▸ hchars⟩

/-- The index is complete and can be read back, for declarations whose names come from source files:
it has one link line for each of them, with the file name of its page, and no other link; and what is
read from it are the groups of the declarations, so declarations with the same index have the same
groups. -/
theorem index_outline {ds : List Declaration} (h : ∀ d ∈ ds, HasScannedNames d) :
    (∀ (i : Nat) (d : Declaration), ds[i]? = some d →
      ∃ page : Document, (documents ds)[i]? = some page ∧ page.content = declarationPage d) ∧
    (∃ links, HasLinkLines (lines (index ds)) links ∧
      links.Perm (List.zipWith linkTo ds (documents ds))) ∧
    readOutline (index ds) = outline ds ∧
    ∀ es, (∀ d ∈ es, HasScannedNames d) → index es = index ds → outline es = outline ds := by
  have hnames : ∀ d ∈ ds, d.HasNames := fun d hd => (h d hd).hasNames
  refine ⟨fun i d hd => ?_, ⟨_, lines_index hnames ▸ hasLinkLines_indexLines hnames, ?_⟩,
    readOutline_index hnames, fun es hes he => ?_⟩
  · have hi : i < (ds.map fun d => (⟨d.pageName, declarationPage d⟩ : Document)).length := by
      rw [List.length_map]
      exact (List.getElem?_eq_some_iff.1 hd).1
    refine ⟨⟨d.pageName, declarationPage d⟩, ?_, rfl⟩
    rw [documents, List.getElem?_append_left hi, List.getElem?_map, hd]
    rfl
  · rw [zipWith_linkTo_documents]
    exact (perm_declarations_groupByLabel ds).map _
  · rw [← readOutline_index hnames, ← he, readOutline_index fun d hd => (hes d hd).hasNames]

/-- A global type and two types of a namespace, with one documentation for all. -/
def threeTypes (documentation : Option Text) : List Declaration :=
  [⟨"Shop".toList, "Cart".toList, documentation, [], "cart.php".toList⟩,
    ⟨[], "Kernel".toList, documentation, [], "kernel.php".toList⟩,
    ⟨"Shop".toList, "Order".toList, documentation, [], "order.php".toList⟩]

theorem index_outline_threeTypes :
    readOutline (index (threeTypes none)) =
        [("Shop".toList, [("Cart".toList, "Shop_Cart.md".toList),
          ("Order".toList, "Shop_Order.md".toList)]),
          ("Global".toList, [("Kernel".toList, "Kernel.md".toList)])] ∧
      (∃ links, HasLinkLines (lines (index (threeTypes none))) links ∧
        links.Perm [("Cart".toList, "./Shop_Cart.md".toList), ("Kernel".toList, "./Kernel.md".toList),
          ("Order".toList, "./Shop_Order.md".toList)]) ∧
      outline (threeTypes (some "/** Shown on pages only. */".toList)) = outline (threeTypes none) := by
  have hscan (documentation : Option Text) : ∀ d ∈ threeTypes documentation, HasScannedNames d := by
    rw [threeTypes, List.forall_mem_cons, List.forall_mem_cons, List.forall_mem_singleton]
    refine ⟨⟨"cart.php".toList, "namespace Shop;class Cart".toList,
      ⟨"Shop".toList, "Cart".toList, none, [], "cart.php".toList⟩, by cbv, rfl, rfl⟩, ?_, ?_⟩
    · exact ⟨"kernel.php".toList, "class Kernel".toList,
        ⟨[], "Kernel".toList, none, [], "kernel.php".toList⟩, by cbv, rfl, rfl⟩
    · exact ⟨"order.php".toList, "namespace Shop;class Order".toList,
        ⟨"Shop".toList, "Order".toList, none, [], "order.php".toList⟩, by cbv, rfl, rfl⟩
  obtain ⟨-, hlinks, hread, hsame⟩ := index_outline (hscan none)
  exact ⟨hread, hlinks, hsame _ (hscan _) rfl⟩

end DocPages.Page
