import DocPages.Text.Basic

/-!
# Declarations

What a source file contributes to the documentation: its first type declaration, with the namespace
it stands in, the documentation blocks attached to it, and its members. A declaration has a
qualified name, a namespace label, and a page, whose file name is the qualified name with low lines
for backslashes.
-/

namespace DocPages

/-- A documented function of a type. -/
structure Member where
  name : Text
  /-- The documentation block in front of it, with its delimiters. -/
  documentation : Option Text
  deriving DecidableEq, Repr, Inhabited

/-- A type declaration found in a source file. -/
structure Declaration where
  /-- The namespace in effect, empty for the global one. -/
  namespaceName : Text
  typeName : Text
  /-- The documentation block of the type, with its delimiters. -/
  documentation : Option Text
  /-- The members in source order. -/
  members : List Member
  /-- The file in which the declaration was found. -/
  sourcePath : Text
  deriving DecidableEq, Repr, Inhabited

/-- The character between the parts of a qualified name. -/
def separator : Char := '\\'

/-- The label of the global namespace. -/
def globalLabel : Text := "Global".toList

namespace Declaration

/-- The namespace and the type name, or the type name alone in the global namespace. -/
def qualifiedName (d : Declaration) : Text :=
  if d.namespaceName = [] then d.typeName else d.namespaceName ++ separator :: d.typeName

/-- The namespace as pages show it. -/
def label (d : Declaration) : Text :=
  if d.namespaceName = [] then globalLabel else d.namespaceName

/-- The file name of the declaration's page. -/
def pageName (d : Declaration) : Text :=
  (d.qualifiedName.map fun c => if c = separator then '_' else c) ++ ".md".toList

end Declaration

end DocPages
