import DocPages.Token.Lexeme

/-!
# Tokenization

Keywords may serve as plain names: after an operator that selects a member, after a backslash, as
the name of a function, and in front of a backslash. `qualify` goes once through a row of lexemes
from left to right and turns each keyword in such a place into an identifier; what it looks back at
are the kinds it has settled already. `tokenize` reads a source text.
-/

namespace DocPages

namespace TokenKind

/-- The kinds after which a keyword is a plain name. -/
def qualifiesNext : TokenKind → Bool
  | memberAccess | namespaceSeparator | functionWord => true
  | _ => false

end TokenKind

namespace Lexeme

/-- Blank space and reference marks do not come between a keyword and what stands before it. -/
def isTransparent (l : Lexeme) : Bool := l.kind == .whitespace || l.text == referenceMark

/-- Whether a row opens with a backslash. -/
def startsWithSeparator (ls : List Lexeme) : Bool :=
  (ls.head?.map Lexeme.kind) == some .namespaceSeparator

/-- The lexeme `l` with its settled kind, where `previous` is the settled kind of the nearest lexeme
before it that is not transparent, and `rest` are the lexemes after it. -/
def settle (previous : Option TokenKind) (l : Lexeme) (rest : List Lexeme) : Lexeme :=
  if l.kind.isKeyword && (previous.any TokenKind.qualifiesNext || startsWithSeparator rest) then
    { l with kind := .identifier }
  else l

/-- Settles the kinds of a row of lexemes. -/
def qualify (previous : Option TokenKind) : List Lexeme → List Lexeme
  | [] => []
  | l :: rest =>
    let l' := settle previous l rest
    l' :: qualify (if l'.isTransparent then previous else some l'.kind) rest

@[simp] theorem text_settle (previous : Option TokenKind) (l : Lexeme) (rest : List Lexeme) :
    (settle previous l rest).text = l.text := by
  unfold settle
  split <;> rfl

theorem map_text_qualify (previous : Option TokenKind) (ls : List Lexeme) :
    (qualify previous ls).map Lexeme.text = ls.map Lexeme.text := by
  induction ls generalizing previous with
  | nil => rfl
  | cons l ls ih => simp [qualify, ih]

end Lexeme

/-- The tokens of a source text. -/
def tokenize (source : Text) : List Token := Lexeme.place 0 (Lexeme.qualify none (lexemes source))

/-- The tokens cover the source, with nothing left out and nothing twice. -/
theorem source_tokenize (t : Text) : Token.source (tokenize t) = t := by
  rw [Token.source, tokenize, Lexeme.map_text_place, Lexeme.map_text_qualify, flatten_lexemes]

end DocPages
