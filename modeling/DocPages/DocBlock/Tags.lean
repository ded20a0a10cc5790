import DocPages.Text.Basic

/-!
# Tags

The tags of a documentation block: names, each with the values recorded under it. Names stand in the
order in which they first came, and each keeps its values in the order in which they came.
`Tags.insert` records a value; `get?`, `first?`, `toList` and `size` read the tags.
-/

namespace DocPages

/-- Tag names in first-seen order, each with its values. -/
structure Tags where
  entries : List (Text × List Text)
  deriving DecidableEq, Repr

namespace Tags

/-- No tag. -/
def empty : Tags := ⟨[]⟩

/-- The values recorded under a name. -/
def get? (tags : Tags) (name : Text) : Option (List Text) := tags.entries.lookup name

/-- The value recorded first under a name. -/
def first? (tags : Tags) (name : Text) : Option Text := (tags.get? name).bind List.head?

/-- The names and their values. -/
def toList (tags : Tags) : List (Text × List Text) := tags.entries

/-- The number of names. -/
def size (tags : Tags) : Nat := tags.entries.length

/-- Whether there is no name. -/
def isEmpty (tags : Tags) : Bool := tags.entries.isEmpty

/-- Adds a value at the end of those of its name, which comes last if it is new. -/
def insertEntry (name value : Text) : List (Text × List Text) → List (Text × List Text)
  | [] => [(name, [value])]
  | (n, values) :: rest =>
    if n = name then (n, values ++ [value]) :: rest else (n, values) :: insertEntry name value rest

/-- Records a value under a name. -/
def insert (tags : Tags) (name value : Text) : Tags := ⟨insertEntry name value tags.entries⟩

/-- The tags that a row of names and values records. -/
def ofList (pairs : List (Text × Text)) : Tags :=
  pairs.foldl (fun tags p => tags.insert p.1 p.2) empty

end Tags

end DocPages
