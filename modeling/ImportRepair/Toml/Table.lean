import ImportRepair.Toml.Value

/-!
# Tables under construction

The tables of a document are defined by headers, by the paths of headers and by dotted keys. How a
table came about decides by what it may still be extended.

## Implementation notes

A table that only stands in the path of a header may be opened once by a header of its own. A table
made by dotted keys takes further dotted keys, but no header. Inline tables and arrays are values
and take nothing more.
-/

namespace ImportRepair.Toml

/-- How a table came about. -/
inductive Origin
  /-- By a header of its own. -/
  | header
  /-- As a part of the path of a header. -/
  | implied
  /-- As a part of a dotted key. -/
  | dotted
  deriving DecidableEq, Repr

/-- An entry of a table under construction. -/
inductive Node
  | value (v : Toml)
  | table (origin : Origin) (entries : List (String × Node))
  /-- The tables of an array of tables, the last one first. -/
  | tables (last : List (String × Node)) (before : List (List (String × Node)))
  deriving Repr

/-- The entries of a table under construction. -/
abbrev Entries := List (String × Node)

namespace Entries

/-- The entry under a key. -/
def get? (es : Entries) (key : String) : Option Node := es.lookup key

/-- Replace the entry under a key, or add it at the end. -/
def set (key : String) (node : Node) : Entries → Entries
  | [] => [(key, node)]
  | e :: es => if e.1 = key then (key, node) :: es else e :: set key node es

/-- Change the entries that a header path leads to. Missing tables are made on the way, and an
array of tables leads to its last table. -/
def under (path : List String) (f : Entries → Option Entries) (es : Entries) : Option Entries :=
  match path with
  | [] => f es
  | key :: path =>
    match es.get? key with
    | none => do return es.set key (.table .implied (← under path f []))
    | some (.table origin sub) => do return es.set key (.table origin (← under path f sub))
    | some (.tables last before) => do return es.set key (.tables (← under path f last) before)
    | some (.value _) => none

/-- Open a table by a header that ends in a key. -/
def openTable (key : String) (es : Entries) : Option Entries :=
  match es.get? key with
  | none => some (es.set key (.table .header []))
  | some (.table .implied sub) => some (es.set key (.table .header sub))
  | some _ => none

/-- Open the next table of an array of tables. -/
def openTables (key : String) (es : Entries) : Option Entries :=
  match es.get? key with
  | none => some (es.set key (.tables [] []))
  | some (.tables last before) => some (es.set key (.tables [] (last :: before)))
  | some _ => none

/-- Add a value under a dotted key. `direct` tells that the entries are those of a table into which
the last part of the key may go. -/
def addValue (direct : Bool) (key : String) (more : List String) (v : Toml) (es : Entries) :
    Option Entries :=
  match more with
  | [] => if direct ∧ (es.get? key).isNone then some (es.set key (.value v)) else none
  | next :: more =>
    match es.get? key with
    | none => do return es.set key (.table .dotted (← addValue true next more v []))
    | some (.table .dotted sub) => do
      return es.set key (.table .dotted (← addValue true next more v sub))
    | some (.table .implied sub) => do
      return es.set key (.table .implied (← addValue false next more v sub))
    | some (.tables last before) => do
      return es.set key (.tables (← addValue false next more v last) before)
    | some (.table .header _) => none
    | some (.value _) => none

end Entries

mutual

/-- The value of an entry. -/
def Node.toToml : Node → Toml
  | .value v => v
  | .table _ es => .table (entriesToToml es)
  | .tables last before => .array (tablesToToml before [.table (entriesToToml last)])

/-- The values of the entries of a table. -/
def entriesToToml : List (String × Node) → List (String × Toml)
  | [] => []
  | (key, node) :: es => (key, node.toToml) :: entriesToToml es

/-- The tables of an array, the given ones after those that came before. -/
def tablesToToml : List (List (String × Node)) → List Toml → List Toml
  | [], after => after
  | es :: before, after => tablesToToml before (.table (entriesToToml es) :: after)

end

end ImportRepair.Toml
