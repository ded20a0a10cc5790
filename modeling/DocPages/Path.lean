import DocPages.Text.Basic

/-!
# Paths

A path is kept as it was written, because that is how it is shown. `join` puts a path behind another
one, `components` are the names on it, `extension?` is the part of the last name after its last
point, and `le` orders paths name by name.
-/

namespace DocPages

/-- A path as written. -/
abbrev Path := Text

namespace Path

/-- Whether a path starts at the root directory. -/
def isAbsolute (p : Path) : Bool := p.head? == some '/'

/-- A path seen from `base`. An absolute path stands for itself; otherwise one slash comes between
the two, unless there is one at the end of `base` or `base` is empty. -/
def join (base p : Path) : Path :=
  if isAbsolute p || base.isEmpty then p
  else if base.getLast? == some '/' then base ++ p
  else base ++ '/' :: p

/-- The names on a path. Empty names and single points lead nowhere and are left out. -/
def components (p : Path) : List Text := (p.splitOn '/').filter fun c => !c.isEmpty && c != ['.']

/-- The last name on a path, unless it leads back up. -/
def fileName? (p : Path) : Option Text := (components p).getLast?.filter (· != ['.', '.'])

/-- The part of a name after its last point. There is none if the name has no other point than one
at its start. -/
def extensionOfName? (name : Text) : Option Text :=
  let reversed := name.reverse
  let stem := (reversed.dropWhile (· != '.')).drop 1
  if stem.isEmpty then none else some (reversed.takeWhile (· != '.')).reverse

/-- The extension of the file that a path names. -/
def extension? (p : Path) : Option Text := (fileName? p).bind extensionOfName?

/-- Paths are ordered by their names from the first to the last, and names by their characters. -/
def le (p q : Path) : Bool := !List.lex (components q) (components p) Text.lt

end Path

end DocPages
