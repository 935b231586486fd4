/-!
# TOML values

What a TOML document means. Of a float or a date only its kind is kept: no setting is one, so their
values are never asked for.

A table remembers how it came about, because that decides whether a later line may still add to it:
a header opens a table once, a dotted key goes on only with tables that dotted keys have made, and
nothing is ever added to a table written between braces.
-/

namespace JackTokens.Toml

/-- How a table came about. -/
inductive Origin where
  /-- It has a header of its own, or is the document. -/
  | header
  /-- It was only on the way to a table with a header. -/
  | implied
  /-- It was on the way of a dotted key. -/
  | dotted
  /-- It was written between braces. -/
  | inline
  deriving DecidableEq, Repr, Inhabited

/-- **A TOML value.** -/
inductive Value where
  | string (text : String)
  | integer (value : Int)
  | float
  | boolean (value : Bool)
  | datetime
  | array (items : List Value)
  | table (origin : Origin) (entries : List (String × Value))
  /-- An array of tables with headers: the latest of them, and those before it, latest first. -/
  | tables (latest : List (String × Value)) (earlier : List (List (String × Value)))
  deriving Repr, Inhabited

/-- The entries of a table: keys with their values. No two have the same key. -/
abbrev Entries := List (String × Value)

namespace Entries

/-- The value under a key. -/
def find? (entries : Entries) (key : String) : Option Value := entries.lookup key

/-- Changes the value under a key, or adds one; the change may be refused. -/
def amend (key : String) (change : Option Value → Option Value) : Entries → Option Entries
  | [] => (change none).map fun value => [(key, value)]
  | (name, value) :: rest =>
    if name == key then (change (some value)).map fun value => (name, value) :: rest
    else (amend key change rest).map fun rest => (name, value) :: rest

/-- Adds a value under a key that has none. -/
def add (key : String) (value : Value) (entries : Entries) : Option Entries :=
  entries.amend key fun
    | none => some value
    | some _ => none

/-- Changes the table at the end of a path. Tables that are missing on the way are made, with the origin
`fresh`; of those that are there, the way leads through those whose origin is `passable`, and through
the latest of an array of tables. -/
def within (fresh : Origin) (passable : Origin → Bool)
    (change : Origin → Entries → Option Entries) :
    List String → Origin → Entries → Option Entries
  | [], origin, entries => change origin entries
  | key :: path, _, entries =>
    entries.amend key fun
      | none => (within fresh passable change path fresh []).map (.table fresh)
      | some (.table origin inner) =>
        if passable origin then
          (within fresh passable change path origin inner).map (.table origin)
        else none
      | some (.tables latest earlier) =>
        (within fresh passable change path .header latest).map fun latest => .tables latest earlier
      | some _ => none

end Entries

/-- A dotted key: the tables on the way, and the name in the last of them. -/
structure Key where
  path : List String
  name : String
  deriving DecidableEq, Repr, Inhabited

/-- A key and the value it is given. -/
structure Pair where
  key : Key
  value : Value
  deriving Repr, Inhabited

namespace Entries

/-- **A key is given a value.** The way to it leads through tables that have no header of their own, and
ends in a table that dotted keys have made; a key without a way ends where it stands, which is no such
table. The key must be new. -/
def assign (origin : Origin) (entries : Entries) (pair : Pair) : Option Entries :=
  within .dotted (fun origin => origin == .implied || origin == .dotted)
    (fun origin entries =>
      if (origin == .dotted) == pair.key.path.isEmpty then none
      else entries.add pair.key.name pair.value)
    pair.key.path origin entries

/-- Keys are given values, one after the other. -/
def assignAll (origin : Origin) (entries : Entries) (pairs : List Pair) : Option Entries :=
  pairs.foldlM (assign origin) entries

end Entries

/-- A header and the pairs below it. -/
structure Section where
  /-- Is this the next table of an array of tables? -/
  repeated : Bool
  key : Key
  pairs : List Pair
  deriving Repr, Inhabited

/-- **A section is added to a document.** The way to its table leads through all tables but those between
braces. A table gets its header once, but may have been implied before; an array of tables grows. -/
def Section.place (document : Entries) (part : Section) : Option Entries :=
  Entries.within .implied (· != .inline)
    (fun _ entries => entries.amend part.key.name fun found =>
      match part.repeated, found with
      | false, none => (Entries.assignAll .header [] part.pairs).map (.table .header)
      | false, some (.table .implied inner) =>
        (Entries.assignAll .header inner part.pairs).map (.table .header)
      | true, none => (Entries.assignAll .header [] part.pairs).map fun table => .tables table []
      | true, some (.tables latest earlier) =>
        (Entries.assignAll .header [] part.pairs).map fun table => .tables table (latest :: earlier)
      | _, _ => none)
    part.key.path .header document

end JackTokens.Toml
