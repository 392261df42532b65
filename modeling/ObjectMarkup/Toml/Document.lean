/-
Documents of TOML: lines that give a key its value, and headers that say which table the lines
below them belong to.  Arrays and inline tables nest less than eighty deep, and a dotted key has
fewer than eighty parts.
-/
import ObjectMarkup.Toml.Token

namespace ObjectMarkup
namespace Toml

/-- The number of levels that nothing reaches. -/
def depthLimit : Nat := 80

def key? : Reader (List String × String) := dottedKey? (depthLimit - 1)

/-- Reads the items of an array behind its bracket.  A comma may follow the last one. -/
def items? (value : Reader Value) : Nat → Reader (List Value)
  | 0, _ => none
  | fuel + 1, cs => do
    match skipLines (cs.length + 1) cs with
    | ']' :: cs => return ([], cs)
    | cs =>
      let (v, cs) ← value cs
      match skipLines (cs.length + 1) cs with
      | ']' :: cs => return ([v], cs)
      | ',' :: cs =>
        let (vs, cs) ← items? value fuel cs
        return (v :: vs, cs)
      | _ => none

/-- Reads a key and its value. -/
def keyValue? (value : Reader Value) : Reader (List String × String × Value) := fun cs => do
  let ((path, key), cs) ← key? cs
  let cs ← expect '=' cs
  let (v, cs) ← value (skipSpace cs)
  return ((path, key, v), cs)

/-- Reads the entries of an inline table into `t`.  They stand on one line, and a comma has to be
followed by an entry. -/
def inlineEntries? (value : Reader Value) : Nat → Table → Reader Table
  | 0, _, _ => none
  | fuel + 1, t, cs => do
    let ((path, key, v), cs) ← keyValue? value (skipSpace cs)
    let t ← t.addValue path key v
    match skipSpace cs with
    | '}' :: cs => return (t, cs)
    | ',' :: cs => inlineEntries? value fuel t cs
    | _ => none

def inlineTable? (value : Reader Value) : Reader Value := fun cs =>
  match skipSpace cs with
  | '}' :: cs => some (.table .inline [], cs)
  | cs => do
    let (t, cs) ← inlineEntries? value (cs.length + 1) { origin := .inline } cs
    return (.table .inline t.entries, cs)

/-- Reads a value in which arrays and inline tables nest at most `depth` deep. -/
def value? : Nat → Reader Value
  | _, '"' :: cs => (string? ('"' :: cs)).map fun r => (.string r.1, r.2)
  | _, '\'' :: cs => (string? ('\'' :: cs)).map fun r => (.string r.1, r.2)
  | 0, '[' :: _ => none
  | 0, '\x7b' :: _ => none
  | depth + 1, '[' :: cs =>
    (items? (value? depth) (cs.length + 1) cs).map fun r => (.array r.1, r.2)
  | depth + 1, '\x7b' :: cs => inlineTable? (value? depth) cs
  | _, cs => word? cs

/-- A document up to some line: its tables, and the path of the header above the line. -/
structure Progress where
  root : Table := {}
  current : List String := []

/-- Reads the header of a table, or of one table of an array. -/
def header? (p : Progress) : List Char → Option (Progress × List Char)
  | '[' :: cs => do
    let ((path, key), cs) ← key? cs
    let cs ← expect ']' cs
    let cs ← expect ']' cs
    let root ← p.root.addTable path key
    return (⟨root, path ++ [key]⟩, cs)
  | cs => do
    let ((path, key), cs) ← key? cs
    let cs ← expect ']' cs
    let root ← p.root.openTable path key
    return (⟨root, path ++ [key]⟩, cs)

/-- Reads one line that is not empty. -/
def line? (p : Progress) : List Char → Option (Progress × List Char)
  | '[' :: cs => header? p cs
  | cs => do
    let ((path, key, v), cs) ← keyValue? (value? (depthLimit - 1)) cs
    let root ← p.root.inSection (Table.addValue path key v) p.current
    return ({ p with root }, cs)

/-- Reads the lines of a document, at most `fuel` of them. -/
def lines? : Nat → Progress → List Char → Option Table
  | 0, _, _ => none
  | fuel + 1, p, cs =>
    match skipSpace cs with
    | [] => some p.root
    | '#' :: cs => do
      let cs ← lineEnd? ('#' :: cs)
      lines? fuel p cs
    | cs =>
      match newline? cs with
      | some cs => lines? fuel p cs
      | none => do
        let (p, cs) ← line? p cs
        let cs ← lineEnd? cs
        lines? fuel p cs

/-- Reads a document, which may begin with a byte order mark. -/
def read? (s : String) : Option Table :=
  let cs := match s.toList with
    | '\ufeff' :: cs => cs
    | cs => cs
  lines? (cs.length + 1) {} cs

end Toml
end ObjectMarkup
