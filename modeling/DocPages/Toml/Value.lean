import DocPages.Text.Basic

/-!
# TOML values

The values of a TOML document, and how a document puts them together. A table remembers how it came
about (`TableForm`), because that decides what may be added to it later: `assign` sets a key,
possibly dotted, in the table of a header, `openTable` and `openElement` act on headers. Each
refuses to define anything twice.
-/

namespace DocPages.Toml

/-- Why a document is refused. -/
inductive Error where
  /-- The text does not follow the grammar. -/
  | malformed
  /-- A key is defined twice, or a table is extended that is closed. -/
  | redefined (key : Text)
  /-- The value of a key has the wrong kind. -/
  | wrongKind (key : Text)
  /-- The value of a key has a number in it that cannot be held. -/
  | unreadable (key : Text)
  deriving DecidableEq, Repr

/-- What is wrong, in words. -/
def Error.message : Error → Text
  | malformed => "invalid syntax".toList
  | redefined key => "duplicate key ".toList ++ Text.inBackquotes key
  | wrongKind key => "invalid value for ".toList ++ Text.inBackquotes key
  | unreadable key => "number out of range in ".toList ++ Text.inBackquotes key

/-- How a table came about. -/
inductive TableForm where
  /-- By its own header, or as the document itself. -/
  | header
  /-- As a parent in the header of another table. -/
  | implied
  /-- As a parent in a dotted key. -/
  | dotted
  /-- As a value in braces. -/
  | braced
  deriving DecidableEq, Repr

/-- A value. Numbers with a fraction and dates are kept as they are written. -/
inductive Value where
  | string (value : Text)
  | integer (value : Int)
  | float (written : Text)
  /-- A number that cannot be held. -/
  | unreadable (written : Text)
  | boolean (value : Bool)
  | date (written : Text)
  | array (items : List Value)
  | table (form : TableForm) (entries : List (Text × Value))
  /-- The tables that the headers in double brackets of one name open, in order. -/
  | tables (elements : List (List (Text × Value)))

/-- The keys of a table and their values. -/
abbrev Entries := List (Text × Value)

mutual

/-- Whether all numbers in a value can be held. -/
def Value.isReadable : Value → Bool
  | .unreadable _ => false
  | .array items => areReadable items
  | .table _ entries => entriesAreReadable entries
  | .tables elements => tablesAreReadable elements
  | _ => true

/-- Whether all numbers in a row of values can be held. -/
def areReadable : List Value → Bool
  | [] => true
  | v :: vs => v.isReadable && areReadable vs

/-- Whether all numbers in a table can be held. -/
def entriesAreReadable : List (Text × Value) → Bool
  | [] => true
  | (_, v) :: rest => v.isReadable && entriesAreReadable rest

/-- Whether all numbers in a row of tables can be held. -/
def tablesAreReadable : List (List (Text × Value)) → Bool
  | [] => true
  | es :: rest => entriesAreReadable es && tablesAreReadable rest

end

/-- Replaces the value of a key, or adds the key at the end. -/
def put (key : Text) (value : Value) : Entries → Entries
  | [] => [(key, value)]
  | (k, v) :: rest => if k = key then (k, value) :: rest else (k, v) :: put key value rest

/-- A change of a table that may be refused. -/
abbrev Change := TableForm → Entries → Except Error (TableForm × Entries)

/-- Makes a change in the table that is reached along a path of keys. Tables on the way that are
missing are made in the form `made`, and those that were only implied get it; a table of a form in
`closed` cannot be entered. Of tables in double brackets the last one is entered. -/
def alter (made : TableForm) (closed : List TableForm) (change : Change) : List Text → Change
  | [], form, entries => change form entries
  | key :: path, form, entries =>
    match entries.lookup key with
    | none => do
      let (f, es) ← alter made closed change path made []
      return (form, put key (.table f es) entries)
    | some (.table f es) =>
      if f ∈ closed then throw (.redefined key)
      else do
        let (f, es) ← alter made closed change path (if f = .implied then made else f) es
        return (form, put key (.table f es) entries)
    | some (.tables elements) => do
      let (_, es) ← alter made closed change path .header (elements.getLast?.getD [])
      return (form, put key (.tables (elements.dropLast ++ [es])) entries)
    | some _ => throw (.redefined key)

/-- Makes a change in the table of a header. -/
def alterHeader (change : Change) (path : List Text) : Change :=
  alter .implied [.braced] change path

/-- Sets a key that is not set yet. Below a dotted key, the table must have come about by dotted
keys. -/
def assignLast (isDotted : Bool) (key : Text) (value : Value) : Change := fun form entries =>
  if (isDotted && form != .dotted) || (entries.lookup key).isSome then throw (.redefined key)
  else return (form, put key value entries)

/-- Sets a key, given as its dotted parents and its last part. -/
def assign (parents : List Text) (key : Text) (value : Value) : Change :=
  alter .dotted [.braced, .header] (assignLast (!parents.isEmpty) key value) parents

/-- Opens the table of a header, given as its parents and its last part. Only a table that was
implied before may be opened. -/
def openTable (parents : List Text) (key : Text) : Change :=
  alterHeader (fun form entries =>
    match entries.lookup key with
    | none => return (form, put key (.table .header []) entries)
    | some (.table .implied es) => return (form, put key (.table .header es) entries)
    | some _ => throw (.redefined key)) parents

/-- Adds a table for a header in double brackets, given as its parents and its last part. -/
def openElement (parents : List Text) (key : Text) : Change :=
  alterHeader (fun form entries =>
    match entries.lookup key with
    | none => return (form, put key (.tables [[]]) entries)
    | some (.tables elements) => return (form, put key (.tables (elements ++ [[]])) entries)
    | some _ => throw (.redefined key)) parents

end DocPages.Toml
