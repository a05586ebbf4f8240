import ImportRepair.Toml.Scalar
import ImportRepair.Toml.Table

/-!
# TOML documents

A document is read line by line: headers choose the table that later lines add to, and every other
line adds a value under a key, which may be dotted.

## Implementation notes

Every fault of a document has the same outcome, so readers answer with an option. `fuel` bounds the
recursion by the length of the text; `depth` bounds the nesting of arrays and inline tables.
-/

namespace ImportRepair.Toml

/-- Holds for the characters of keys without quotes. -/
def isKeyChar (c : Char) : Bool := c.isAlphanum || c == '-' || c == '_'

/-- Read one part of a key from the front of a text. -/
def keyPart? : List Char → Option (String × List Char)
  | '"' :: cs => (basicString 0 cs).map fun r => (String.ofList r.1, r.2)
  | '\'' :: cs => (literalString cs).map fun r => (String.ofList r.1, r.2)
  | cs =>
    let part := cs.takeWhile isKeyChar
    if part = [] then none else some (String.ofList part, cs.drop part.length)

/-- Read the parts of a key with its dots from the front of a text, and drop the spaces after it. -/
def keyParts? : Nat → List Char → Option (List String × List Char)
  | 0, _ => none
  | fuel + 1, cs => do
    let (part, cs) ← keyPart? cs
    match skipSpaces cs with
    | '.' :: cs => do
      let (more, cs) ← keyParts? fuel (skipSpaces cs)
      return (part :: more, cs)
    | cs => some ([part], cs)

/-- The deepest nesting of arrays and inline tables, and the greatest number of parts of a key. -/
def maxDepth : Nat := 80

/-- Read a key from the front of a text, and drop the spaces after it. -/
def key? (fuel : Nat) (cs : List Char) : Option (List String × List Char) := do
  let (path, cs) ← keyParts? fuel cs
  if path.length ≤ maxDepth then some (path, cs) else none

mutual

/-- Read a value from the front of a text. -/
def value? (fuel depth : Nat) (cs : List Char) : Option (Toml × List Char) :=
  match fuel, cs with
  | 0, _ => none
  | fuel + 1, '[' :: cs =>
    match depth with
    | 0 => none
    | depth + 1 => (items? fuel depth [] (skipGaps false cs)).map fun r => (.array r.1, r.2)
  | fuel + 1, '{' :: cs =>
    match depth with
    | 0 => none
    | depth + 1 =>
      (inline? fuel depth [] (skipGaps false cs)).map fun r => (.table (entriesToToml r.1), r.2)
  | _, '"' :: cs => (string? ('"' :: cs)).map fun r => (.string (String.ofList r.1), r.2)
  | _, '\'' :: cs => (string? ('\'' :: cs)).map fun r => (.string (String.ofList r.1), r.2)
  | _, cs =>
    let (run, rest) := spanAtom cs
    (atom? run).map fun v => (v, rest)

/-- Read the elements of an array up to its closing bracket; `done` are those before. -/
def items? (fuel depth : Nat) (done : List Toml) (cs : List Char) :
    Option (List Toml × List Char) :=
  match fuel, cs with
  | 0, _ => none
  | _, ']' :: cs => some (done, cs)
  | fuel + 1, cs => do
    let (v, cs) ← value? fuel depth cs
    match skipGaps false cs with
    | ',' :: cs => items? fuel depth (done ++ [v]) (skipGaps false cs)
    | ']' :: cs => some (done ++ [v], cs)
    | _ => none

/-- Read the entries of an inline table up to its closing brace; `done` are those before. Between
the parts of a key there may be spaces, and everywhere else there may be line ends too. -/
def inline? (fuel depth : Nat) (done : Entries) (cs : List Char) :
    Option (Entries × List Char) :=
  match fuel, cs with
  | 0, _ => none
  | _, '}' :: cs => some (done, cs)
  | fuel + 1, cs => do
    let (path, cs) ← key? fuel cs
    let '=' :: cs := skipGaps false cs | none
    let (v, cs) ← value? fuel depth (skipGaps false cs)
    let key :: more := path | none
    let done ← Entries.addValue true key more v done
    match skipGaps false cs with
    | ',' :: cs => inline? fuel depth done (skipGaps false cs)
    | '}' :: cs => some (done, cs)
    | _ => none

end

/-- The end of a line: spaces, a comment, and a line end or the end of the text. -/
def lineEnd? (cs : List Char) : Option (List Char) :=
  match skipComment (skipSpaces cs) with
  | [] => some []
  | cs => newline? cs

/-- A document so far: its tables, and the path of the table that lines add to. -/
structure Draft where
  root : Entries := []
  path : List String := []

namespace Draft

/-- Open a table of its own, or the next table of an array. -/
def openTable (d : Draft) (array : Bool) (path : List String) : Option Draft := do
  let key ← path.getLast?
  let root ← d.root.under path.dropLast
    (if array then Entries.openTables key else Entries.openTable key)
  return ⟨root, path⟩

/-- Add a value to the table that lines add to. -/
def add (d : Draft) (path : List String) (v : Toml) : Option Draft := do
  let key :: more := path | none
  let root ← d.root.under d.path (Entries.addValue true key more v)
  return ⟨root, d.path⟩

end Draft

/-- Read one line into a draft. -/
def line? (fuel : Nat) (d : Draft) (cs : List Char) : Option (Draft × List Char) :=
  match cs with
  | '[' :: '[' :: cs => do
    let (path, cs) ← key? fuel (skipSpaces cs)
    let ']' :: ']' :: cs := cs | none
    return (← d.openTable true path, ← lineEnd? cs)
  | '[' :: cs => do
    let (path, cs) ← key? fuel (skipSpaces cs)
    let ']' :: cs := cs | none
    return (← d.openTable false path, ← lineEnd? cs)
  | cs => do
    let (path, cs) ← key? fuel cs
    let '=' :: cs := cs | none
    let (v, cs) ← value? fuel maxDepth (skipSpaces cs)
    return (← d.add path v, ← lineEnd? cs)

/-- Read all lines into a draft. -/
def lines? : Nat → Draft → List Char → Option Draft
  | 0, _, _ => none
  | fuel + 1, d, cs =>
    match skipGaps false cs with
    | [] => some d
    | cs => do
      let (d, cs) ← line? fuel d cs
      lines? fuel d cs

/-- Read a document, which may begin with a byte order mark. -/
def parse (text : String) : Option Toml :=
  let cs := match text.toList with
    | '\uFEFF' :: cs => cs
    | cs => cs
  (lines? (cs.length + 2) ⟨[], []⟩ cs).map fun d => .table (entriesToToml d.root)

end ImportRepair.Toml
