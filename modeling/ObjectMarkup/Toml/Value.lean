/-
Values of TOML, and how a document fills its tables.  Where a table comes from decides who may add
to it: a table that was written whole is closed, one that a header named takes the lines below that
header, one that only stands in the path of a header can still get a header, and one that a dotted
key opened takes further dotted keys.
-/
namespace ObjectMarkup
namespace Toml

inductive Origin where
  /-- written whole, between braces -/
  | inline
  /-- named by a header -/
  | header
  /-- on the way to a header -/
  | path
  /-- on the way to a dotted key -/
  | dotted
deriving DecidableEq, Repr

/-- Whether no line of the document stands for the table itself. -/
def Origin.isImplicit : Origin → Bool
  | path | dotted => true
  | inline | header => false

inductive Value where
  | string (s : String)
  | integer (n : Int)
  | float (x : Float)
  | boolean (b : Bool)
  /-- a date, a time or both; nothing asks which -/
  | moment
  | array (items : List Value)
  | table (origin : Origin) (entries : List (String × Value))
  /-- an array whose tables have headers of their own -/
  | tables (items : List (List (String × Value)))

/-- A table under construction. -/
structure Table where
  origin : Origin := .header
  entries : List (String × Value) := []

namespace Table

def replace (key : String) (v : Value) : List (String × Value) → List (String × Value)
  | [] => [(key, v)]
  | e :: es => if e.1 == key then (key, v) :: es else e :: replace key v es

/-- Changes the value of a key, or adds it. -/
def put (t : Table) (key : String) (v : Value) : Table :=
  { t with entries := replace key v t.entries }

/-- Adds a key that the table does not have. -/
def insert? (t : Table) (key : String) (v : Value) : Option Table :=
  if (t.entries.lookup key).isSome then none else some (t.put key v)

/-- Changes the table at the end of a path, on the way to a dotted key or to a header.  Tables that
are missing on the way are made.  A dotted key goes through no table that has a line of its own. -/
def atPath (isDotted : Bool) (f : Table → Option Table) : List String → Table → Option Table
  | [], t => f t
  | key :: path, t =>
    match t.entries.lookup key with
    | none => do
      let inner ← atPath isDotted f path { origin := if isDotted then .dotted else .path }
      return t.put key (.table inner.origin inner.entries)
    | some (.table origin entries) =>
      if origin == .inline || (isDotted && !origin.isImplicit) then none
      else do
        let inner ← atPath isDotted f path { origin, entries }
        return t.put key (.table inner.origin inner.entries)
    | some (.tables items) =>
      match items.getLast? with
      | none => none
      | some entries => do
        let inner ← atPath isDotted f path { origin := .header, entries }
        return t.put key (.tables (items.dropLast ++ [inner.entries]))
    | some _ => none

/-- Adds a value under a dotted key.  A key without dots stands in the table itself; the table of
any other was opened by dotted keys alone. -/
def addValue (path : List String) (key : String) (v : Value) : Table → Option Table :=
  atPath true (fun t =>
    if (t.origin == .dotted) == path.isEmpty then none else t.insert? key v) path

/-- Gives the table at the end of a path a header, which it can have once. -/
def openTable (path : List String) (key : String) : Table → Option Table :=
  atPath false (fun t =>
    match t.entries.lookup key with
    | none => some (t.put key (.table .header []))
    | some (.table .path entries) => some (t.put key (.table .header entries))
    | some _ => none) path

/-- Adds a table to the array of tables at the end of a path. -/
def addTable (path : List String) (key : String) : Table → Option Table :=
  atPath false (fun t =>
    match t.entries.lookup key with
    | none => some (t.put key (.tables [[]]))
    | some (.tables items) => some (t.put key (.tables (items ++ [[]])))
    | some _ => none) path

/-- Changes the table that the last header named. -/
def inSection (f : Table → Option Table) : List String → Table → Option Table :=
  atPath false f

end Table
end Toml
end ObjectMarkup
