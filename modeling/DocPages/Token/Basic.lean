import DocPages.Text.Utf8

/-!
# Tokens

A source file is read as a row of tokens. A `Lexeme` is a piece of text with its kind, a `Token`
also knows the byte at which it starts. `TokenKind.ofWord` tells the keywords from plain names,
`place` gives each lexeme of a row its offset, and `nextSignificant?` looks ahead past tokens that
do not matter.
-/

namespace DocPages

/-- What a piece of source text is. -/
inductive TokenKind where
  /-- A plain name. -/
  | identifier
  /-- The keyword that opens a namespace. -/
  | namespaceWord
  /-- A keyword that declares a type: class, interface, trait or enum. -/
  | classLike
  /-- The keyword that declares a function. -/
  | functionWord
  /-- A visibility: public, protected or private. -/
  | visibility
  /-- A modifier: abstract, final, static or readonly. -/
  | modifier
  /-- A documentation block. -/
  | docBlock
  /-- Any other comment. -/
  | comment
  /-- A name after a dollar sign. -/
  | variable
  /-- A quoted string or a heredoc. -/
  | literal
  /-- A backslash between the parts of a qualified name. -/
  | namespaceSeparator
  /-- A semicolon. -/
  | semicolon
  /-- An opening brace. -/
  | openBrace
  /-- An operator that selects a member. -/
  | memberAccess
  /-- Spaces, tabs, form feeds and line breaks. -/
  | whitespace
  /-- Everything else. -/
  | other
  deriving DecidableEq, Repr, Inhabited

namespace TokenKind

/-- The keywords, grouped by kind. -/
def keywords : List (TokenKind × List Text) := [
  (.namespaceWord, ["namespace".toList]),
  (.functionWord, ["function".toList]),
  (.classLike, ["class".toList, "interface".toList, "trait".toList, "enum".toList]),
  (.visibility, ["public".toList, "protected".toList, "private".toList]),
  (.modifier, ["abstract".toList, "final".toList, "static".toList, "readonly".toList])]

/-- The kind of a bare word. Keywords are told apart without regard to the case of ASCII letters. -/
def ofWord (w : Text) : TokenKind :=
  ((keywords.find? fun k => Text.isOneOf k.2 w).map Prod.fst).getD .identifier

/-- The kinds whose tokens spell a name. -/
def isWord : TokenKind → Bool
  | identifier | namespaceWord | classLike | functionWord | visibility | modifier => true
  | _ => false

/-- The kinds of the keywords. -/
def isKeyword (k : TokenKind) : Bool := k.isWord && k != .identifier

/-- Blank space and comments other than documentation blocks. -/
def isTrivia : TokenKind → Bool
  | whitespace | comment => true
  | _ => false

theorem isWord_ofWord (w : Text) : (ofWord w).isWord := by
  unfold ofWord
  cases h : keywords.find? fun k => Text.isOneOf k.2 w with
  | none => rfl
  | some k =>
    have hk := List.mem_of_find?_eq_some h
    simp only [keywords, List.mem_cons, List.not_mem_nil, or_false] at hk
    rcases hk with rfl | rfl | rfl | rfl | rfl <;> rfl

end TokenKind

/-- A piece of source text and its kind. -/
structure Lexeme where
  kind : TokenKind
  text : Text
  deriving DecidableEq, Repr, Inhabited

/-- A piece of source text, its kind and the number of bytes before it. -/
structure Token where
  kind : TokenKind
  text : Text
  offset : Nat
  deriving DecidableEq, Repr, Inhabited

/-- The reference mark, which may stand between a keyword and the name it declares. -/
def referenceMark : Text := ['&']

namespace Lexeme

/-- The tokens of a row of lexemes of which the first starts at byte `start`. -/
def place (start : Nat) : List Lexeme → List Token
  | [] => []
  | l :: ls => ⟨l.kind, l.text, start⟩ :: place (start + Text.byteSize l.text) ls

@[simp] theorem place_nil (start : Nat) : place start [] = [] := rfl

@[simp] theorem place_cons (start : Nat) (l : Lexeme) (ls : List Lexeme) :
    place start (l :: ls) =
      ⟨l.kind, l.text, start⟩ :: place (start + Text.byteSize l.text) ls := rfl

theorem map_text_place (start : Nat) (ls : List Lexeme) :
    (place start ls).map Token.text = ls.map Lexeme.text := by
  induction ls generalizing start with
  | nil => rfl
  | cons l ls ih => simp [ih]

theorem map_kind_place (start : Nat) (ls : List Lexeme) :
    (place start ls).map Token.kind = ls.map Lexeme.kind := by
  induction ls generalizing start with
  | nil => rfl
  | cons l ls ih => simp [ih]

end Lexeme

namespace Token

/-- The source text that a row of tokens covers. -/
def source (ts : List Token) : Text := (ts.map Token.text).flatten

/-- The position of the first token at or after `start` that `skip` does not skip. -/
def nextSignificant? (skip : Token → Bool) (start : Nat) (ts : List Token) : Option Nat :=
  ((ts.drop start).findIdx? fun t => !skip t).map (start + ·)

end Token

end DocPages
