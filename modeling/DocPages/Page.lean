import DocPages.Declaration
import DocPages.DocBlock.Basic

/-!
# Pages

The Markdown documents of a row of declarations (`documents`): a page for each declaration, then an
index of all pages by namespace, then a reference that lists every declaration with its members. A
page shows the description and all tags of a type, and for each member its description, parameters,
result and exceptions.

`groupByLabel` sorts declarations by namespace. Groups come in the order in which their namespaces
first occur, and the declarations of a group stay in order.
-/

namespace DocPages

/-- A document and the file name it is written under. -/
structure Document where
  fileName : Text
  content : Text
  deriving DecidableEq, Repr

namespace Page

/-! ### Building blocks -/

/-- A line and the blank line after it. -/
def paragraph (t : Text) : Text := t ++ "\n\n".toList

/-- A line of a list. -/
def bullet (t : Text) : Text := "- ".toList ++ t ++ ['\n']

/-- A heading over lines of which each is written by `line`, with a blank line at the end. -/
def listing {α : Type} (heading : Text) (line : α → Text) (items : List α) : Text :=
  paragraph heading ++ items.flatMap line ++ ['\n']

/-- A description as a paragraph, or nothing if it is empty. -/
def describe (description : Text) : Text :=
  if description = [] then [] else paragraph description

/-- The line between two entries. -/
def rule : Text := paragraph "---".toList

/-- A bullet that shows a text as code. -/
def codeBullet (t : Text) : Text := bullet (Text.inBackquotes t)

/-- The name of a member with a pair of parentheses, as code. -/
def callName (m : Member) : Text := Text.inBackquotes (m.name ++ "()".toList)

/-! ### Declaration pages -/

/-- The bullets of one tag, one for each of its values. -/
def tagBullets (tag : Text × List Text) : Text :=
  tag.2.flatMap fun value => bullet ("**@".toList ++ tag.1 ++ "** ".toList ++ value)

/-- The description and the tags of a type. -/
def typeSection (block : DocBlock) : Text :=
  paragraph "## Description".toList ++ describe block.description ++
    if block.tags.isEmpty then []
    else listing "## Tags".toList tagBullets block.tags.toList

/-- What a documentation block says about a member. -/
def memberSections (block : DocBlock) : Text :=
  let parameters := match block.tags.get? "param".toList with
    | some values => listing "**Parameters:**".toList codeBullet values
    | none => []
  let result := match block.tags.first? "return".toList with
    | some value => paragraph ("**Returns:** ".toList ++ Text.inBackquotes value)
    | none => []
  let exceptions := match block.tags.get? "throws".toList with
    | some values => listing "**Throws:**".toList codeBullet values
    | none => []
  describe block.description ++ parameters ++ result ++ exceptions

/-- The entry of a member. -/
def memberEntry (m : Member) : Text :=
  paragraph ("### ".toList ++ callName m) ++
    (match m.documentation with
      | some raw => memberSections (DocBlock.ofText raw)
      | none => []) ++
    rule

/-- The page of a declaration. -/
def declarationPage (d : Declaration) : Text :=
  paragraph ("# ".toList ++ d.typeName) ++
    paragraph ("**Namespace:** ".toList ++ Text.inBackquotes d.label) ++
    paragraph ("**Full Class Name:** ".toList ++ Text.inBackquotes d.qualifiedName) ++
    (match d.documentation with
      | some raw => typeSection (DocBlock.ofText raw)
      | none => []) ++
    if d.members = [] then []
    else paragraph "## Methods".toList ++ d.members.flatMap memberEntry

/-! ### The index -/

/-- Puts a declaration at the end of the group with its label, which comes last if it is new. -/
def addToGroup (d : Declaration) :
    List (Text × List Declaration) → List (Text × List Declaration)
  | [] => [(d.label, [d])]
  | (label, ds) :: groups =>
    if label = d.label then (label, ds ++ [d]) :: groups else (label, ds) :: addToGroup d groups

/-- The declarations by namespace label. -/
def groupByLabel (ds : List Declaration) : List (Text × List Declaration) :=
  ds.foldl (fun groups d => addToGroup d groups) []

/-- The link to the page of a declaration. -/
def link (d : Declaration) : Text :=
  bullet ('[' :: d.typeName ++ "](./".toList ++ d.pageName ++ [')'])

/-- The links of one namespace. -/
def groupSection (group : Text × List Declaration) : Text :=
  listing ("### ".toList ++ group.1) link group.2

/-- The file name of the index. -/
def indexName : Text := "index.md".toList

/-- The index of all pages. -/
def index (ds : List Declaration) : Text :=
  paragraph "# API Documentation".toList ++
    paragraph "Auto-generated documentation from PHPDoc comments.".toList ++
    paragraph "## Available Classes".toList ++
    (groupByLabel ds).flatMap groupSection

/-! ### The reference -/

/-- The entry of a declaration in the reference. -/
def referenceEntry (d : Declaration) : Text :=
  paragraph ("## ".toList ++ d.qualifiedName) ++
    (match d.documentation with
      | some raw => describe (DocBlock.ofText raw).description
      | none => []) ++
    (if d.members = [] then []
      else listing "**Methods:**".toList (fun m => bullet (callName m)) d.members) ++
    rule

/-- The file name of the reference. -/
def referenceName : Text := "api-reference.md".toList

/-- The reference of all declarations. -/
def reference (ds : List Declaration) : Text :=
  paragraph "# Complete API Reference".toList ++
    paragraph "Complete overview of all classes, methods, and their documentation.".toList ++
    ds.flatMap referenceEntry

/-! ### All documents -/

/-- The documents of a row of declarations, in the order in which they are written. -/
def documents (ds : List Declaration) : List Document :=
  ds.map (fun d => ⟨d.pageName, declarationPage d⟩) ++
    [⟨indexName, index ds⟩, ⟨referenceName, reference ds⟩]

theorem length_documents (ds : List Declaration) : (documents ds).length = ds.length + 2 := by
  simp [documents]

end Page

end DocPages
