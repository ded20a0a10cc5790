import DocPages.Proofs.Token.Cut
import DocPages.Declaration

/-!
# Class files in canonical layout

A class file (`ClassFile`) holds one type with its documentation and its members, in a namespace or
in none. `ClassFile.print` writes it out in one fixed layout, and `ClassFile.declaration` is what it
declares. The parts carry what makes them well formed: a word is a word of the language (`Word`), a
keyword has its kind (`WordOf`), and a documentation block is closed once, at its end (`DocText`).
-/

namespace DocPages

/-- A word of the language. -/
structure Word where
  text : Text
  isWord : Text.isWord text

/-- A word of kind `k`. -/
structure WordOf (k : TokenKind) extends Word where
  ofWord_eq : TokenKind.ofWord text = k

/-- A documentation block, given by its text after the opening mark. -/
structure DocText where
  body : Text
  isClosed : Text.IsClosed body
  isDocBody : isDocBody body

/-- The whole text of a documentation block. -/
def DocText.text (d : DocText) : Text := '/' :: '*' :: d.body

/-- A namespace: one word that is no keyword, or several words. None of them has a blank in it. -/
structure NamespaceName where
  first : Word
  others : List Word
  ofWord_eq : others = [] → TokenKind.ofWord first.text = .identifier
  isBlank_eq : ∀ w ∈ first :: others, ∀ c ∈ w.text, Text.isBlank c = false

/-- The words of a namespace with backslashes between them. -/
def NamespaceName.text (n : NamespaceName) : Text :=
  n.first.text ++ n.others.flatMap fun w => separator :: w.text

/-- A member of a class file. -/
structure MemberText where
  documentation : Option DocText
  /-- The modifiers in front of the visibility. -/
  before : List (WordOf .modifier)
  visibility : Option (WordOf .visibility)
  /-- The modifiers behind the visibility. -/
  after : List (WordOf .modifier)
  name : Word

/-- A class file. -/
structure ClassFile where
  namespaceName : Option NamespaceName
  documentation : Option DocText
  modifiers : List (WordOf .modifier)
  keyword : WordOf .classLike
  name : WordOf .identifier
  members : List MemberText

/-! ### The layout -/

/-- Words with a space behind each. -/
def printWords {k : TokenKind} (ws : List (WordOf k)) : Text := ws.flatMap fun w => w.text ++ [' ']

/-- A documentation block on its own lines, if there is one. -/
def printDoc (d : Option DocText) : Text := d.toList.flatMap fun d => d.text ++ ['\n']

/-- A namespace statement on its own line, if there is one. -/
def printNamespace (n : Option NamespaceName) : Text :=
  n.toList.flatMap fun n => "namespace ".toList ++ n.text ++ ";\n".toList

namespace MemberText

/-- The text of a member. -/
def print (m : MemberText) : Text :=
  printDoc m.documentation ++ printWords m.before ++ printWords m.visibility.toList ++
    printWords m.after ++ "function ".toList ++ m.name.text ++ ['(', ')', ' ', '{', '}', '\n']

/-- What a member declares. -/
def member (m : MemberText) : Member := ⟨m.name.text, m.documentation.map DocText.text⟩

end MemberText

namespace ClassFile

/-- The text of a class file. -/
def print (f : ClassFile) : Text :=
  "<?php\n".toList ++ printNamespace f.namespaceName ++ printDoc f.documentation ++
    printWords f.modifiers ++ f.keyword.text ++ [' '] ++ f.name.text ++ ['\n'] ++
    ['{', '\n'] ++ f.members.flatMap MemberText.print ++ ['}', '\n']

/-- What a class file at `path` declares. -/
def declaration (path : Text) (f : ClassFile) : Declaration where
  namespaceName := (f.namespaceName.map NamespaceName.text).getD []
  typeName := f.name.text
  documentation := f.documentation.map DocText.text
  members := f.members.map MemberText.member
  sourcePath := path

end ClassFile

/-! ### An example -/

/-- A class file in a namespace and with a method that are named by keywords. -/
def toolFile : ClassFile where
  namespaceName := some
    ⟨⟨"App".toList, rfl⟩, [⟨"class".toList, rfl⟩], by simp, by simp [Text.isBlank]⟩
  documentation := some ⟨_, Text.isClosed_append (t := "* A tool. ".toList) (by simp), rfl⟩
  modifiers := [⟨⟨"final".toList, rfl⟩, rfl⟩]
  keyword := ⟨⟨"class".toList, rfl⟩, rfl⟩
  name := ⟨⟨"Tool".toList, rfl⟩, rfl⟩
  members := [
    ⟨none, [⟨⟨"final".toList, rfl⟩, rfl⟩], some ⟨⟨"public".toList, rfl⟩, rfl⟩,
      [⟨⟨"static".toList, rfl⟩, rfl⟩], ⟨"function".toList, rfl⟩⟩,
    ⟨none, [], none, [], ⟨"stop".toList, rfl⟩⟩]

example : toolFile.print =
    ("<?php\nnamespace App\\class;\n/** A tool. */\nfinal class Tool\n\x7b\n" ++
      "final public static function function() \x7b\x7d\nfunction stop() \x7b\x7d\n" ++
      "\x7d\n").toList := by
  decide +kernel

end DocPages
