import DocPages.Page
import DocPages.Proofs.DocBlock.Content

/-!
# The tags on a page

The page of a documented type has a heading, the description, the tags and the methods
(`declarationPage_eq`). The tags have a bullet for each name and value that is recorded, grouped by
name (`flatMap_tagBullets`), and their heading is there exactly if there is one.

Main statement: `declarationPage_showsTags`, from the inserts to the page.
-/

namespace DocPages.Page

open DocBlock Grouping

/-! ### The parts of a page -/

/-- What stands on a page in front of the documentation. -/
def pageHead (d : Declaration) : Text :=
  paragraph ("# ".toList ++ d.typeName) ++
    paragraph ("**Namespace:** ".toList ++ Text.inBackquotes d.label) ++
    paragraph ("**Full Class Name:** ".toList ++ Text.inBackquotes d.qualifiedName)

/-- The heading of the description and the description. -/
def descriptionSection (description : Text) : Text :=
  paragraph "## Description".toList ++ describe description

/-- The bullet of a tag with one value. -/
def tagBullet (tag : Text × Text) : Text :=
  bullet ("**@".toList ++ tag.1 ++ "** ".toList ++ tag.2)

/-- The heading of the tags with one bullet for each, or nothing if there is no tag. -/
def tagSection (tags : List (Text × Text)) : Text :=
  if tags = [] then [] else listing "## Tags".toList tagBullet tags

/-- The entries of the methods under their heading, or nothing if there is no method. -/
def methodSection (d : Declaration) : Text :=
  if d.members = [] then [] else paragraph "## Methods".toList ++ d.members.flatMap memberEntry

/-! ### The section of the tags -/

section Tags

variable {tags : Tags} {pairs : List (Text × Text)}

theorem tagSection_eq_nil_iff : tagSection pairs = [] ↔ pairs = [] := by
  unfold tagSection
  split
  · next h => exact iff_of_true rfl h
  · next h => exact iff_of_false (by simp [listing]) h

theorem flatMap_tagBullets (tags : List (Text × List Text)) :
    tags.flatMap tagBullets = (ungroup tags).flatMap tagBullet := by
  rw [ungroup, List.flatMap_assoc]
  refine List.flatMap_congr fun tag _ => ?_
  rw [List.flatMap_map]
  rfl

theorem toPairs_eq_nil_iff (h : tags.IsGroupingOf pairs) : tags.toPairs = [] ↔ pairs = [] := by
  rw [← List.length_eq_zero_iff, h.perm_toPairs.length_eq, List.length_eq_zero_iff]

theorem typeSection_eq {block : DocBlock} (h : block.tags.IsGroupingOf pairs) :
    typeSection block = descriptionSection block.description ++ tagSection block.tags.toPairs := by
  have hempty : block.tags.isEmpty ↔ block.tags.toPairs = [] :=
    h.isEmpty_iff.trans (toPairs_eq_nil_iff h).symm
  simp only [typeSection, tagSection, hempty, listing, flatMap_tagBullets]
  rfl

end Tags

/-! ### The page -/

theorem declarationPage_eq {d : Declaration} {raw : Text} (h : d.documentation = some raw) :
    declarationPage d = pageHead d ++ typeSection (ofText raw) ++ methodSection d := by
  simp only [declarationPage, h]
  rfl

/-- Recorded tags are grouped by name and nothing is lost, and a page shows all of them: for each
tag line of the documentation there is one bullet, in the order of the groups, and without tag lines
there is no section of tags. -/
theorem declarationPage_showsTags :
    (∀ pairs, (Tags.ofList pairs).IsGroupingOf pairs) ∧
      ∀ (d : Declaration) (raw : Text), d.documentation = some raw →
        ∃ pairs, HasTagLines (contentLines raw) pairs ∧ (ofText raw).tags.IsGroupingOf pairs ∧
          declarationPage d = pageHead d ++
            (descriptionSection (ofText raw).description ++ tagSection (ofText raw).tags.toPairs) ++
              methodSection d ∧
          (tagSection (ofText raw).tags.toPairs = [] ↔
            ∀ line ∈ contentLines raw, ¬ ∃ name value, IsTagLine line name value) := by
  refine ⟨Tags.isGroupingOf_ofList, fun d raw hraw => ?_⟩
  have hlines := hasTagLines_contentLines raw
  have hgroups : (ofText raw).tags.IsGroupingOf ((contentLines raw).filterMap tagOfLine?) := by
    rw [ofText_eq]
    exact Tags.isGroupingOf_ofList _
  refine ⟨_, hlines, hgroups, ?_, ?_⟩
  · rw [declarationPage_eq hraw, typeSection_eq hgroups]
  · rw [tagSection_eq_nil_iff, toPairs_eq_nil_iff hgroups, hlines.eq_nil_iff]

/-- A block in which another tag stands between two of one name. -/
def mixedBlock : Text := "/**\n * @param a\n * @throws X\n * @param b\n */".toList

/-- A type that is documented by `mixedBlock`. -/
def mixedDeclaration : Declaration where
  namespaceName := []
  typeName := "Table".toList
  documentation := some mixedBlock
  members := []
  sourcePath := "Table.php".toList

theorem declarationPage_showsTags_mixed :
    mixedDeclaration.documentation = some mixedBlock ∧
      tagSection (ofText mixedBlock).tags.toPairs =
        "## Tags\n\n- **@param** a\n- **@param** b\n- **@throws** X\n\n".toList ∧
      ∃ pairs, HasTagLines (contentLines mixedBlock) pairs ∧
        (ofText mixedBlock).tags.IsGroupingOf pairs ∧
        declarationPage mixedDeclaration = pageHead mixedDeclaration ++
          (descriptionSection (ofText mixedBlock).description ++
            tagSection (ofText mixedBlock).tags.toPairs) ++ methodSection mixedDeclaration ∧
        (tagSection (ofText mixedBlock).tags.toPairs = [] ↔
          ∀ line ∈ contentLines mixedBlock, ¬ ∃ name value, IsTagLine line name value) :=
  ⟨rfl, by decide +kernel, declarationPage_showsTags.2 mixedDeclaration mixedBlock rfl⟩

end DocPages.Page
