import DocPages.Toml.Date

/-!
# TOML scalars

Strings and words. Strings are cut off first (`quoted?`, `quotedLines?`) and then freed of their
escapes (`unescape?`); a word is cut off (`word`) and then read as a truth value, a number or a date
(`ofWord?`).
-/

namespace DocPages.Toml

/-! ### Characters -/

/-- The characters that a document may hold within a line. -/
def isPlain (c : Char) : Bool := c == '\t' || (0x20 ≤ c.toNat && c.toNat != 0x7F)

/-- Spaces and tabs. -/
def isSpace (c : Char) : Bool := c == ' ' || c == '\t'

/-- Drops spaces and tabs at the start. -/
def skipSpaces (t : Text) : Text := t.dropWhile isSpace

/-- Drops blanks and line breaks at the start. -/
def skipBlankLines : Text → Text
  | ' ' :: t => skipBlankLines t
  | '\t' :: t => skipBlankLines t
  | '\n' :: t => skipBlankLines t
  | '\r' :: '\n' :: t => skipBlankLines t
  | t => t

theorem length_skipBlankLines_le (t : Text) : (skipBlankLines t).length ≤ t.length := by
  fun_induction skipBlankLines t <;> simp_all <;> omega

/-- The text after a line break at its start, if there is one. -/
def afterLineBreak? : Text → Option Text
  | '\n' :: t => some t
  | '\r' :: '\n' :: t => some t
  | _ => none

/-! ### Strings -/

/-- Splits a text at the quote `q`, which is dropped. With `escapes`, a backslash shields the
character after it. -/
def quoted? (q : Char) (escapes : Bool) : Text → Option (Text × Text)
  | [] => none
  | c :: t =>
    if c = q then some ([], t)
    else if escapes && c = '\\' then
      match t with
      | d :: t => (quoted? q escapes t).map fun split => Text.keep c (Text.keep d split)
      | [] => none
    else (quoted? q escapes t).map (Text.keep c)

/-- Splits a text at three quotes `q`, which are dropped; up to two more quotes belong to the first
part. -/
def quotedLines? (q : Char) (escapes : Bool) : Text → Option (Text × Text)
  | [] => none
  | c :: t =>
    if [q, q, q].isPrefixOf (c :: t) then
      let extra := ((t.drop 2).takeWhile (· == q)).take 2
      some (extra, t.drop (2 + extra.length))
    else if escapes && c = '\\' then
      match t with
      | d :: t => (quotedLines? q escapes t).map fun split => Text.keep c (Text.keep d split)
      | [] => none
    else (quotedLines? q escapes t).map (Text.keep c)

/-- The characters that a backslash and one letter stand for. -/
def shortEscapes : List (Char × Char) := [
  ('b', '\x08'), ('t', '\t'), ('n', '\n'), ('f', '\x0C'), ('r', '\r'), ('e', '\x1B'), ('"', '"'),
  ('\\', '\\')]

/-- The letters after a backslash that announce hexadecimal digits, and how many. -/
def hexEscapes : List (Char × Nat) := [('x', 2), ('u', 4), ('U', 8)]

/-- The character with a code of `n` hexadecimal digits, which open the text. -/
def hexChar? (n : Nat) (t : Text) : Option Char :=
  let digits := t.take n
  let code := spelled 16 digits
  if digits.length = n ∧ digits.all isHexDigit ∧ code.isValidChar then some (Char.ofNat code)
  else none

/-- The string that a text with escapes stands for. In a string of several lines, a backslash at the
end of a line takes the line break and all blanks after it away. -/
def unescape? (severalLines : Bool) : Text → Option Text
  | [] => some []
  | '\\' :: t =>
    if severalLines && (afterLineBreak? (t.dropWhile isSpace)).isSome then
      unescape? severalLines (skipBlankLines t)
    else
      match t with
      | [] => none
      | c :: t =>
        match shortEscapes.lookup c with
        | some d => (unescape? severalLines t).map (d :: ·)
        | none => do
          let n ← hexEscapes.lookup c
          let d ← hexChar? n t
          let rest ← unescape? severalLines (t.drop n)
          some (d :: rest)
  | c :: t => (unescape? severalLines t).map (c :: ·)
termination_by t => t.length
decreasing_by
  · exact Nat.lt_succ_of_le (length_skipBlankLines_le t)
  all_goals simp_all <;> omega

/-- Whether a string may hold a text as it stands: no control characters but tabs, and line breaks
only in strings of several lines. -/
def isStringText (severalLines : Bool) : Text → Bool
  | [] => true
  | '\r' :: '\n' :: t => severalLines && isStringText severalLines t
  | c :: t => (isPlain c || (severalLines && c == '\n')) && isStringText severalLines t

/-- The text without a line break at its start. -/
def dropLineBreak (t : Text) : Text := (afterLineBreak? t).getD t

/-- Reads a string of one line. -/
def lineString? : Text → Option (Text × Text)
  | '"' :: t => do
    let (raw, rest) ← quoted? '"' true t
    if isStringText false raw then some (← unescape? false raw, rest) else none
  | '\'' :: t => do
    let (raw, rest) ← quoted? '\'' false t
    if isStringText false raw then some (raw, rest) else none
  | _ => none

/-- Reads a string. -/
def string? : Text → Option (Text × Text)
  | '"' :: '"' :: '"' :: t => do
    let (raw, rest) ← quotedLines? '"' true (dropLineBreak t)
    if isStringText true raw then some (← unescape? true raw, rest) else none
  | '\'' :: '\'' :: '\'' :: t => do
    let (raw, rest) ← quotedLines? '\'' false (dropLineBreak t)
    if isStringText true raw then some (raw, rest) else none
  | t => lineString? t

/-! ### Words -/

/-- The characters of words: all but blanks, line breaks and the marks between values. -/
def isWordPart (c : Char) : Bool :=
  !(isSpace c || c ∈ [',', '=', '[', ']', '\x7b', '\x7d', '#', '\n', '\r'])

/-- The characters at which a word goes on after blanks. -/
def resumesWord (c : Char) : Bool := isWordPart c && !(c ∈ ['.', '"', '\''])

/-- Cuts off a word, together with all words after it that only blanks part from it. -/
def word (t : Text) : Text × Text :=
  let first := t.takeWhile isWordPart
  let rest := t.dropWhile isWordPart
  if _h : (skipSpaces rest).length < t.length ∧ (skipSpaces rest).head?.any resumesWord then
    let (more, after) := word (skipSpaces rest)
    (first ++ rest.takeWhile isSpace ++ more, after)
  else (first, rest)
termination_by t.length
decreasing_by exact _h.1

/-- The value that a word stands for. -/
def ofWord? (w : Text) : Option Value :=
  if w = "true".toList then some (.boolean true)
  else if w = "false".toList then some (.boolean false)
  else
    match number? w with
    | some v => some v
    | none => if isDate w then some (.date w) else none

end DocPages.Toml
