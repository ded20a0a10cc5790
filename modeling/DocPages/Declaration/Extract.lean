import DocPages.Declaration
import DocPages.Token.Tokenize

/-!
# Extraction

A source file declares what its tokens say in one pass from left to right. `ScanState` is what has
been seen so far; `ScanState.step` takes one token in, given the tokens after it, and looks ahead
only to read a namespace (`namespaceAfter?`), the name after a keyword (`nameAfter?`) or what a
documentation block stands in front of (`targetAfter?`).

The first type with a name is the file's declaration; the next one ends the list of its members. A
documentation block waits until a type or a function takes it. Blocks that stand in front of neither
are dropped, and a function outside the type discards the block that waits for a member.
-/

namespace DocPages

/-- What a documentation block can be attached to. -/
inductive DocTarget where
  | type
  | member
  deriving DecidableEq, Repr

namespace Token

/-- Whether a token is blank space or an ordinary comment. -/
def isTrivia (t : Token) : Bool := t.kind.isTrivia

/-- Whether a token may stand between a keyword and the name it declares. -/
def isNameGap (t : Token) : Bool := t.isTrivia || t.text == referenceMark

/-- Whether a token may stand between a documentation block and what it documents. -/
def isTargetGap (t : Token) : Bool := t.kind == .whitespace || t.kind == .modifier

/-- Whether a token ends a namespace statement. -/
def endsNamespace (t : Token) : Bool := t.kind == .semicolon || t.kind == .openBrace

/-- Whether the text of a token is part of a namespace. -/
def isNamespacePart (t : Token) : Bool := t.kind.isWord || t.kind == .namespaceSeparator

/-- The first token that `skip` does not skip. -/
def firstSignificant? (skip : Token → Bool) (ts : List Token) : Option Token :=
  ts.find? fun t => !skip t

/-- The namespace that a statement declares, given the tokens after its keyword: the names and
backslashes up to its end. There is none if no token but trivia follows. -/
def namespaceAfter? (ts : List Token) : Option Text :=
  match ts.dropWhile isTrivia with
  | [] => none
  | statement =>
    let parts := (statement.takeWhile fun t => !t.endsNamespace).filter isNamespacePart
    some (Text.trim (parts.map Token.text).flatten)

/-- The name after a keyword, given the tokens after it. Anonymous classes and closures have none.
-/
def nameAfter? (ts : List Token) : Option Text :=
  (firstSignificant? isNameGap ts).bind fun t => if t.kind.isWord then some t.text else none

/-- What a documentation block stands in front of, given the tokens after it. -/
def targetAfter? (ts : List Token) : Option DocTarget :=
  (firstSignificant? isTargetGap ts).bind fun t =>
    match t.kind with
    | .classLike => some .type
    | .visibility | .functionWord => some .member
    | _ => none

end Token

/-- What has been seen of a file so far. -/
structure ScanState where
  /-- The namespace declared last. -/
  namespaceName : Text
  /-- The block that waits for a type. -/
  typeDoc : Option Text
  /-- The block that waits for a member. -/
  memberDoc : Option Text
  /-- The first type with a name. -/
  declaration : Option Declaration
  /-- Whether another type with a name has followed. -/
  finished : Bool
  /-- Where the blocks without a target start. -/
  dropped : List Nat
  deriving DecidableEq, Repr

namespace ScanState

/-- Nothing has been seen. -/
def start : ScanState := ⟨[], none, none, none, false, []⟩

/-- Whether functions are members of the declaration. -/
def insideType (s : ScanState) : Bool := s.declaration.isSome && !s.finished

/-- A documentation block with text `t.text` in front of the tokens `rest`. -/
def takeDoc (s : ScanState) (t : Token) (rest : List Token) : ScanState :=
  match Token.targetAfter? rest with
  | some .type => { s with typeDoc := some t.text }
  | some .member => { s with memberDoc := some t.text }
  | none => { s with dropped := s.dropped ++ [t.offset] }

/-- A type declaration in front of the tokens `rest`. -/
def takeType (path : Text) (s : ScanState) (rest : List Token) : ScanState :=
  match Token.nameAfter? rest with
  | none => s
  | some name =>
    if s.declaration.isSome then { s with finished := true }
    else { s with
      typeDoc := none
      declaration := some ⟨s.namespaceName, name, s.typeDoc, [], path⟩ }

/-- A function in front of the tokens `rest`. -/
def takeFunction (s : ScanState) (rest : List Token) : ScanState :=
  if s.insideType then
    match Token.nameAfter? rest with
    | none => s
    | some name => { s with
        memberDoc := none
        declaration := s.declaration.map fun d =>
          { d with members := d.members ++ [⟨name, s.memberDoc⟩] } }
  else { s with memberDoc := none }

/-- A namespace statement in front of the tokens `rest`. -/
def takeNamespace (s : ScanState) (rest : List Token) : ScanState :=
  { s with namespaceName := (Token.namespaceAfter? rest).getD s.namespaceName }

/-- Takes in one token, in front of the tokens `rest`. -/
def step (path : Text) (s : ScanState) (t : Token) (rest : List Token) : ScanState :=
  match t.kind with
  | .namespaceWord => s.takeNamespace rest
  | .docBlock => s.takeDoc t rest
  | .classLike => s.takeType path rest
  | .functionWord => s.takeFunction rest
  | _ => s

/-- Takes in a row of tokens. -/
def run (path : Text) (s : ScanState) : List Token → ScanState
  | [] => s
  | t :: rest => run path (s.step path t rest) rest

end ScanState

/-- What a file declares, and where its documentation blocks without a target start. -/
structure Extraction where
  declaration : Option Declaration
  dropped : List Nat
  deriving DecidableEq, Repr

/-- What a row of tokens of the file `path` declares. -/
def extract (path : Text) (ts : List Token) : Extraction :=
  let s := ScanState.start.run path ts
  ⟨s.declaration, s.dropped⟩

/-- What the source text of the file `path` declares. -/
def scanSource (path source : Text) : Extraction := extract path (tokenize source)

end DocPages
