import DocPages.Exclude.Glob

/-!
# Regular expressions of globs

Globs are matched in one of two ways: those of a simple form are compared directly (`isDirect`), all
others through a regular expression (`expression`). Such an expression may nest at most `maxNesting`
deep, which only braces in braces can exceed (`nesting`).
-/

namespace DocPages

namespace Glob

/-! ### Writing an expression -/

/-- The characters that mean something of their own in a regular expression. -/
def marks : List Char :=
  ['\\', '.', '+', '*', '?', '(', ')', '|', '[', ']', '\x7b', '\x7d', '^', '$', '#', '&', '-', '~']

/-- A byte that stands for itself. -/
def literal (b : UInt8) : Text :=
  let c := Char.ofNat b.toNat
  if 0x80 ≤ b then '\\' :: 'x' :: Nat.toDigits 16 b.toNat
  else if c ∈ marks then ['\\', c]
  else [c]

/-- A range of bytes in a class. -/
def classRange (r : UInt8 × UInt8) : Text :=
  if r.1 = r.2 then literal r.1 else literal r.1 ++ '-' :: literal r.2

mutual

/-- The regular expression of a part. -/
def Part.expression : Part → Text
  | .bytes bs => bs.flatMap literal
  | .anyByte => "[^/]".toList
  | .anyBytes => "[^/]*".toList
  | .oneOf negated ranges =>
    '[' :: (if negated then ['^'] else []) ++ ranges.flatMap classRange ++ [']']
  | .leadingNames => "(?:/?|.*/)".toList
  | .middleNames => "(?:/|/.*/)".toList
  | .trailingNames => "/.*".toList
  | .branches rows =>
    if rows.isEmpty then [] else "(?:".toList ++ List.intercalate ['|'] (rowsText rows) ++ [')']

/-- The regular expression of a row of parts. -/
def rowText : List Part → Text
  | [] => []
  | p :: ps => p.expression ++ rowText ps

/-- The regular expressions of several rows of parts. -/
def rowsText : List (List Part) → List Text
  | [] => []
  | row :: rows => rowText row :: rowsText rows

end

/-- The regular expression of a glob, which a path has to match as a whole. -/
def expression (parts : List Part) : Text := "(?-u)^".toList ++ rowText parts ++ ['$']

/-! ### Nesting -/

/-- How deep regular expressions may nest. -/
def maxNesting : Nat := 250

/-- How many terms the regular expression of a part puts in a row. -/
def Part.terms : Part → Nat
  | .bytes bs => bs.length
  | .trailingNames => 2
  | .branches rows => if rows.isEmpty then 0 else 1
  | _ => 1

/-- The level that a row of `n` terms or branches adds: one, unless it is no row at all. -/
def level (n : Nat) : Nat := if 1 < n then 1 else 0

mutual

/-- How deep the regular expression of a part nests. Groups, classes, rows and repetitions count one
each, and so do the branches of a group, if there are several. -/
def Part.nesting : Part → Nat
  | .bytes _ => 0
  | .anyByte => 1
  | .anyBytes => 2
  | .oneOf _ ranges => 1 + level ranges.length
  | .leadingNames => 4
  | .middleNames => 4
  | .trailingNames => 1
  | .branches rows => if rows.isEmpty then 0 else 1 + level rows.length + rowsNesting rows

/-- How deep the deepest part of a row nests. -/
def deepest : List Part → Nat
  | [] => 0
  | p :: ps => max p.nesting (deepest ps)

/-- How deep the deepest of several rows nests. -/
def rowsNesting : List (List Part) → Nat
  | [] => 0
  | row :: rows => max (level (row.map Part.terms).sum + deepest row) (rowsNesting rows)

end

/-- How deep the regular expression of a glob nests. -/
def nesting (parts : List Part) : Nat := 1 + deepest parts

/-- Whether the regular expression of a glob nests too deep. -/
def isTooDeep (parts : List Part) : Bool := maxNesting < nesting parts

/-! ### Ways of matching -/

/-- Whether a part stands for one character, none of those given. -/
def Part.isLiteral (others : List Char) : Part → Bool
  | .bytes bs => others.all fun c => bs ≠ String.utf8EncodeChar c
  | _ => false

/-- Whether a part stands for the character `c`. -/
def Part.isChar (c : Char) : Part → Bool
  | .bytes bs => bs = String.utf8EncodeChar c
  | _ => false

/-- Whether a part stands for characters of one name: a character of its own, or any. -/
def Part.isOfName : Part → Bool
  | .anyByte | .anyBytes => true
  | p => p.isLiteral ['/']

/-- Whether a glob is matched without a regular expression: a fixed path, the fixed end of a path,
or a name anywhere, with or without places for any characters. -/
def isDirect : List Part → Bool
  | .leadingNames :: parts =>
    !parts.isEmpty && (parts.all (Part.isLiteral []) || parts.all Part.isOfName)
  | parts => !parts.isEmpty && parts.all (Part.isLiteral [])

/-- Whether a glob ends in an extension: a point, and characters after it. -/
def hasExtension (parts : List Part) : Bool :=
  (parts.reverse.find? fun p => !p.isLiteral ['/', '.']).any (Part.isChar '.')

end Glob

end DocPages
