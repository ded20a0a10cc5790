/-!
# Texts

A `Text` is the list of its characters, so that every rule of the library is a recursion on a list.
This module fixes which characters are blank (`isBlank`, the Unicode property White_Space), how
blanks are trimmed (`trimStart`, `trimEnd`, `trim`), how a text is cut into lines (`lines`), what it
means for two texts to agree up to the case of ASCII letters (`sameIgnoringCase`), and how texts are
ordered (`lt`, `le`). A rule that cuts a text in two gives both parts and builds the first one with
`keep`.
-/

namespace DocPages

/-- A text is the list of its characters. -/
abbrev Text := List Char

namespace Text

/-! ### Blanks -/

/-- The characters with the Unicode property White_Space. -/
def isBlank (c : Char) : Bool :=
  let n := c.toNat
  (0x09 ≤ n && n ≤ 0x0D) || n == 0x20 || n == 0x85 || n == 0xA0 || n == 0x1680 ||
    (0x2000 ≤ n && n ≤ 0x200A) || n == 0x2028 || n == 0x2029 || n == 0x202F || n == 0x205F ||
    n == 0x3000

/-- Drops the blanks at the start. -/
def trimStart (t : Text) : Text := t.dropWhile isBlank

/-- Drops the blanks at the end. -/
def trimEnd (t : Text) : Text := (t.reverse.dropWhile isBlank).reverse

/-- Drops the blanks at both ends. -/
def trim (t : Text) : Text := trimEnd (trimStart t)

/-- The text without `p` at its start, or the text itself if it does not start with `p`. -/
def withoutStart (p t : Text) : Text := (p.isPrefixOf? t).getD t

/-- The text without `s` at its end, or the text itself if it does not end with `s`. -/
def withoutEnd (s t : Text) : Text := (s.isSuffixOf? t).getD t

/-- A text between backquotes. -/
def inBackquotes (t : Text) : Text := '\x60' :: t ++ ['\x60']

/-! ### Cutting a text in two -/

/-- Puts a character in front of the first part of a text that was cut in two. -/
def keep (c : Char) (split : Text × Text) : Text × Text := (c :: split.1, split.2)

@[simp] theorem fst_keep (c : Char) (split : Text × Text) : (keep c split).1 = c :: split.1 := rfl

@[simp] theorem snd_keep (c : Char) (split : Text × Text) : (keep c split).2 = split.2 := rfl

/-! ### Lines -/

/-- A line without the carriage return at its end, if there is one. -/
def dropReturn (line : Text) : Text := withoutEnd ['\r'] line

/-- The lines of a text: each ends at a line feed, which is dropped together with one carriage
return before it, or at the end of the text. The empty text has no line, and a line feed at the very
end starts none. -/
def lines (t : Text) : List Text :=
  let pieces := t.splitOn '\n'
  let last := pieces.getLast?.getD []
  pieces.dropLast.map dropReturn ++ (if last = [] then [] else [last])

/-- Joins lines with a line feed between each two. -/
def joinLines (ls : List Text) : Text := List.intercalate ['\n'] ls

/-! ### Letter case -/

/-- Agreement up to the case of ASCII letters. -/
def sameIgnoringCase (a b : Text) : Bool := a.map Char.toLower == b.map Char.toLower

/-- Whether `t` is one of `words`, up to the case of ASCII letters. -/
def isOneOf (words : List Text) (t : Text) : Bool := words.any (sameIgnoringCase t)

/-! ### Order -/

/-- Whether a text comes before another one, character by character. -/
def lt (s t : Text) : Bool := List.lex s t fun a b => a.toNat < b.toNat

/-- Whether a text comes before another one or is the same. -/
def le (s t : Text) : Bool := !lt t s

/-! ### First properties -/

@[simp] theorem trimStart_nil : trimStart [] = [] := rfl

@[simp] theorem trimEnd_nil : trimEnd [] = [] := rfl

@[simp] theorem trim_nil : trim [] = [] := rfl

end Text

end DocPages
