import DocPages.Token.Basic

/-!
# Lexemes

The lexical rules. `reach c cs` says how far the lexeme that starts with the character `c` reaches
into the text `cs` after it; of the rules that apply the longest match wins, and text that no rule
matches is taken in pieces that could still have become a match, at least one character at a time.
`lexemes` cuts a whole text.

Three kinds of lexemes hold arbitrary text: block comments end after the first closing mark
(`commentBody`), quoted strings after the first closing quote that no backslash escapes
(`quotedBody`), and heredocs after a line that opens with their label (`heredoc?`). Each runs to the
end of the text when it is never closed.

Main statement: nothing is lost (`reach_append`, `flatten_lexemes`).
-/

namespace DocPages

/-! ### Character classes -/

/-- The characters that may open a name: ASCII letters, the low line and all from U+0080 on. -/
def isNameStart (c : Char) : Bool := c.isAlpha || c == '_' || decide (0x80 ≤ c.toNat)

/-- The characters a name goes on with: those that may open one, and the ASCII digits. -/
def isNameChar (c : Char) : Bool := isNameStart c || c.isDigit

/-- The blank characters between tokens. -/
def isGap (c : Char) : Bool := c == ' ' || c == '\t' || c == '\r' || c == '\n' || c == '\x0C'

/-- The characters that may indent a line. -/
def isIndent (c : Char) : Bool := c == ' ' || c == '\t'

/-- The characters of a line. -/
def isInLine (c : Char) : Bool := c != '\n'

/-! ### Block comments -/

/-- Splits the text after the opening mark of a block comment behind the first closing mark. -/
def commentBody : Text → Text × Text
  | '*' :: '/' :: rest => (['*', '/'], rest)
  | c :: cs => Text.keep c (commentBody cs)
  | [] => ([], [])

/-- A block comment is a documentation block when a star and a blank follow its opening mark. -/
def isDocBody : Text → Bool
  | '*' :: c :: _ => Text.isBlank c
  | _ => false

/-- The kind of a block comment, given its text after the opening mark. -/
def commentKind (body : Text) : TokenKind := if isDocBody body then .docBlock else .comment

theorem commentBody_append (t : Text) : (commentBody t).1 ++ (commentBody t).2 = t := by
  fun_induction commentBody t <;> simp_all

/-! ### Quoted strings -/

/-- Splits the text after an opening quote `q` behind the first quote that no backslash escapes. -/
def quotedBody (q : Char) : Text → Text × Text
  | '\\' :: c :: cs => Text.keep '\\' (Text.keep c (quotedBody q cs))
  | c :: cs => if c = q then ([c], cs) else Text.keep c (quotedBody q cs)
  | [] => ([], [])

theorem quotedBody_append (q : Char) (t : Text) : (quotedBody q t).1 ++ (quotedBody q t).2 = t := by
  fun_induction quotedBody q t <;> simp_all

/-! ### Heredocs -/

/-- The line that opens a heredoc: the label, the text up to the end of that line, and what follows.
-/
structure HeredocOpening where
  label : Text
  line : Text
  body : Text
  deriving DecidableEq, Repr

/-- The quote that stands at the start of a text, if any. -/
def openingQuote : Text → Text
  | '\'' :: _ => ['\'']
  | '"' :: _ => ['"']
  | _ => []

/-- The line break at the start of a text, if there is one. -/
def lineBreak? : Text → Option Text
  | '\r' :: '\n' :: _ => some ['\r', '\n']
  | '\n' :: _ => some ['\n']
  | _ => none

/-- Reads the rest of the line that opens a heredoc: a label, alone or in quotes, and a line break.
-/
def heredocOpening? (t : Text) : Option HeredocOpening :=
  let indent := t.takeWhile isIndent
  let afterIndent := t.dropWhile isIndent
  let quote := openingQuote afterIndent
  let afterQuote := afterIndent.drop quote.length
  let label := afterQuote.takeWhile isNameChar
  if label.head?.any isNameStart then do
    let afterLabel ← quote.isPrefixOf? (afterQuote.dropWhile isNameChar)
    let newline ← lineBreak? afterLabel
    some ⟨label, indent ++ quote ++ label ++ quote ++ newline, afterLabel.drop newline.length⟩
  else none

/-- The closing label at the start of a line, with its indentation, and the text after it. A longer
name does not close the heredoc. -/
def closingLabel? (label line : Text) : Option (Text × Text) := do
  let rest ← label.isPrefixOf? (line.dropWhile isIndent)
  if rest.head?.any isNameChar then none else some (line.takeWhile isIndent ++ label, rest)

/-- Splits the body of a heredoc behind its closing label; `atStart` tells that a line starts here.
-/
def heredocBody (label : Text) (atStart : Bool) : Text → Text × Text
  | [] => ([], [])
  | c :: cs =>
    match if atStart then closingLabel? label (c :: cs) else none with
    | some closed => closed
    | none => Text.keep c (heredocBody label (c == '\n') cs)

/-- Splits the text after the opening mark of a heredoc behind its closing label, or gives nothing
when no label line follows the mark. -/
def heredoc? (t : Text) : Option (Text × Text) :=
  (heredocOpening? t).map fun o =>
    let split := heredocBody o.label true o.body
    (o.line ++ split.1, split.2)

theorem append_of_isPrefixOf? {p t rest : Text} (h : p.isPrefixOf? t = some rest) :
    p ++ rest = t := by
  induction p generalizing t with
  | nil => exact (Option.some.inj h).symm
  | cons c p ih =>
    cases t with
    | nil => contradiction
    | cons d t =>
      have hstep : (if c == d then p.isPrefixOf? t else none) = some rest := h
      split at hstep
      · next hcd => simp [ih hstep, eq_of_beq hcd]
      · contradiction

theorem lineBreak?_append {t b : Text} (h : lineBreak? t = some b) : b ++ t.drop b.length = t := by
  unfold lineBreak? at h
  split at h <;> simp_all <;> subst h <;> simp

theorem openingQuote_append (t : Text) : openingQuote t ++ t.drop (openingQuote t).length = t := by
  unfold openingQuote
  split <;> simp

theorem heredocOpening?_append {t : Text} {o : HeredocOpening} (h : heredocOpening? t = some o) :
    o.line ++ o.body = t := by
  simp only [heredocOpening?] at h
  split at h
  · simp only [Option.bind_eq_bind, Option.bind_eq_some_iff, Option.some.injEq] at h
    obtain ⟨a, ha, b, hb, rfl⟩ := h
    have h₁ := append_of_isPrefixOf? ha
    have h₂ := lineBreak?_append hb
    have h₃ := openingQuote_append (t.dropWhile isIndent)
    simp only [List.append_assoc, h₂, h₁, List.takeWhile_append_dropWhile, h₃]
  · simp at h

theorem closingLabel?_append {label line : Text} {p : Text × Text}
    (h : closingLabel? label line = some p) : p.1 ++ p.2 = line := by
  simp only [closingLabel?, Option.bind_eq_bind, Option.bind_eq_some_iff] at h
  obtain ⟨rest, hr, h⟩ := h
  split at h
  · simp at h
  · simp only [Option.some.injEq] at h
    subst h
    simp [append_of_isPrefixOf? hr]

theorem heredocBody_append (label : Text) (atStart : Bool) (t : Text) :
    (heredocBody label atStart t).1 ++ (heredocBody label atStart t).2 = t := by
  induction t generalizing atStart with
  | nil => rfl
  | cons c cs ih =>
    unfold heredocBody
    split
    · next closed h =>
      split at h
      · exact closingLabel?_append h
      · simp at h
    · simp [ih]

theorem heredoc?_append {t : Text} {p : Text × Text} (h : heredoc? t = some p) :
    p.1 ++ p.2 = t := by
  simp only [heredoc?, Option.map_eq_some_iff] at h
  obtain ⟨o, ho, rfl⟩ := h
  simp [heredocBody_append, heredocOpening?_append ho]

/-! ### One lexeme -/

/-- How far a lexeme reaches: its kind, its text after the first character, and the text after it.
-/
structure Reach where
  kind : TokenKind
  tail : Text
  rest : Text
  deriving DecidableEq, Repr

/-- The lexeme that goes on while `p` holds. -/
def Reach.while (kind : TokenKind) (p : Char → Bool) (cs : Text) : Reach :=
  ⟨kind, cs.takeWhile p, cs.dropWhile p⟩

/-- The lexeme that ends where `split` cuts, with the characters `start` between its first one and
`split`. -/
def Reach.upTo (kind : TokenKind) (start : Text) (split : Text × Text) : Reach :=
  ⟨kind, start ++ split.1, split.2⟩

/-- The lexeme that the character `c` opens in front of the text `cs`. -/
def reach (c : Char) (cs : Text) : Reach :=
  if isNameStart c then
    .while (.ofWord (c :: cs.takeWhile isNameChar)) isNameChar cs
  else if isGap c then
    .while .whitespace isGap cs
  else
    match c, cs with
    | '/', '*' :: rest => .upTo (commentKind (commentBody rest).1) ['*'] (commentBody rest)
    | '/', '/' :: rest => .while .comment isInLine ('/' :: rest)
    | '#', '[' :: rest => ⟨.other, ['['], rest⟩
    | '#', rest => .while .comment isInLine rest
    | '\'', rest => .upTo .literal [] (quotedBody '\'' rest)
    | '"', rest => .upTo .literal [] (quotedBody '"' rest)
    | '<', '<' :: '<' :: rest =>
      match heredoc? rest with
      | some split => .upTo .literal ['<', '<'] split
      | none => ⟨.other, ['<', '<'], rest⟩
    | '<', '<' :: rest => ⟨.other, ['<'], rest⟩
    | '$', d :: rest =>
      if isNameStart d then .while .variable isNameChar (d :: rest) else ⟨.other, [], d :: rest⟩
    | '\\', rest => ⟨.namespaceSeparator, [], rest⟩
    | ';', rest => ⟨.semicolon, [], rest⟩
    | '{', rest => ⟨.openBrace, [], rest⟩
    | ':', ':' :: rest => ⟨.memberAccess, [':'], rest⟩
    | '-', '>' :: rest => ⟨.memberAccess, ['>'], rest⟩
    | '?', '-' :: '>' :: rest => ⟨.memberAccess, ['-', '>'], rest⟩
    | '?', '-' :: rest => ⟨.other, ['-'], rest⟩
    | _, rest => ⟨.other, [], rest⟩

theorem reach_append (c : Char) (cs : Text) : (reach c cs).tail ++ (reach c cs).rest = cs := by
  unfold reach
  split
  · simp [Reach.while]
  split
  · simp [Reach.while]
  split <;> try simp [Reach.while, Reach.upTo, commentBody_append, quotedBody_append]
  · split
    · next h => simp [heredoc?_append h]
    · simp
  · split <;> simp

theorem length_reach_rest_le (c : Char) (cs : Text) : (reach c cs).rest.length ≤ cs.length := by
  have h := congrArg List.length (reach_append c cs)
  simp only [List.length_append] at h
  omega

/-! ### A whole text -/

/-- Cuts a text into lexemes. -/
def lexemes : Text → List Lexeme
  | [] => []
  | c :: cs => ⟨(reach c cs).kind, c :: (reach c cs).tail⟩ :: lexemes (reach c cs).rest
termination_by t => t.length
decreasing_by exact Nat.lt_succ_of_le (length_reach_rest_le c cs)

@[simp] theorem lexemes_nil : lexemes [] = [] := by rw [lexemes]

theorem lexemes_cons (c : Char) (cs : Text) :
    lexemes (c :: cs) =
      ⟨(reach c cs).kind, c :: (reach c cs).tail⟩ :: lexemes (reach c cs).rest := by
  rw [lexemes]

theorem flatten_lexemes (t : Text) : ((lexemes t).map Lexeme.text).flatten = t := by
  fun_induction lexemes t with
  | case1 => rfl
  | case2 c cs ih => simp [ih, reach_append]

end DocPages
