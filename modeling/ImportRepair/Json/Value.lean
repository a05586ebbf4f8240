import ImportRepair.Json.Number

/-!
# JSON values and their texts

A value is written compactly, or with one element per line and two spaces of indentation.

## Implementation notes

Texts are lists of characters. In a string only the quote, the backslash and the characters below
the space are escaped.
-/

namespace ImportRepair

/-- A JSON value; the members of an object keep their order. -/
inductive Json
  | null
  | boolean (b : Bool)
  | integer (n : Int)
  | float (negative : Bool) (x : Binary64)
  | string (s : String)
  | array (items : List Json)
  | object (members : List (String × Json))
  deriving Repr

namespace Json

/-- The lower-case hexadecimal digit of a number below sixteen. -/
def hexDigit (n : Nat) : Char := if n < 10 then Char.ofNat (48 + n) else Char.ofNat (87 + n)

/-- A character as it stands in a string. -/
def escape (c : Char) : List Char :=
  if c = '"' then ['\\', '"']
  else if c = '\\' then ['\\', '\\']
  else if c = '\x08' then ['\\', 'b']
  else if c = '\x0c' then ['\\', 'f']
  else if c = '\n' then ['\\', 'n']
  else if c = '\r' then ['\\', 'r']
  else if c = '\t' then ['\\', 't']
  else if c.toNat < 0x20 then
    ['\\', 'u', '0', '0', hexDigit (c.toNat / 16), hexDigit (c.toNat % 16)]
  else [c]

/-- A string between quotes. -/
def quote (s : String) : List Char := '"' :: (s.toList.flatMap escape ++ ['"'])

/-- The text of a value without elements. -/
def scalar : Json → List Char
  | .null => "null".toList
  | .boolean b => (if b then "true" else "false").toList
  | .integer n => (toString n).toList
  | .float negative x => (x.text negative).toList
  | .string s => quote s
  | .array _ => "[]".toList
  | .object _ => ['{', '}']

mutual

/-- The text of a value without any space. -/
def compact : Json → List Char
  | .array items => '[' :: (compactItems items ++ [']'])
  | .object members => '{' :: (compactMembers members ++ ['}'])
  | v => v.scalar

/-- Values with commas between them. -/
def compactItems : List Json → List Char
  | [] => []
  | [v] => v.compact
  | v :: w :: vs => v.compact ++ ',' :: compactItems (w :: vs)

/-- Members with commas between them. -/
def compactMembers : List (String × Json) → List Char
  | [] => []
  | [(k, v)] => quote k ++ ':' :: v.compact
  | (k, v) :: m :: ms => quote k ++ ':' :: (v.compact ++ ',' :: compactMembers (m :: ms))

end

/-- The start of a line at a depth of nesting. -/
def newLine (depth : Nat) : List Char := '\n' :: List.replicate (2 * depth) ' '

mutual

/-- The text of a value with one element per line, at a depth of nesting. -/
def prettyAt (depth : Nat) : Json → List Char
  | .array [] => ['[', ']']
  | .array (v :: vs) => '[' :: (prettyItems (depth + 1) (v :: vs) ++ newLine depth ++ [']'])
  | .object [] => ['{', '}']
  | .object (m :: ms) => '{' :: (prettyMembers (depth + 1) (m :: ms) ++ newLine depth ++ ['}'])
  | v => v.scalar

/-- Values on lines of their own. -/
def prettyItems (depth : Nat) : List Json → List Char
  | [] => []
  | [v] => newLine depth ++ v.prettyAt depth
  | v :: w :: vs => newLine depth ++ v.prettyAt depth ++ ',' :: prettyItems depth (w :: vs)

/-- Members on lines of their own. -/
def prettyMembers (depth : Nat) : List (String × Json) → List Char
  | [] => []
  | [(k, v)] => newLine depth ++ quote k ++ ':' :: ' ' :: v.prettyAt depth
  | (k, v) :: m :: ms =>
    newLine depth ++ quote k ++ ':' :: ' ' ::
      (v.prettyAt depth ++ ',' :: prettyMembers depth (m :: ms))

end

/-- The compact text of a value. -/
def compactText (v : Json) : String := String.ofList v.compact

/-- The text of a value with one element per line. -/
def prettyText (v : Json) : String := String.ofList (v.prettyAt 0)

/-- The array of some strings. -/
def strings (ss : List String) : Json := .array (ss.map .string)

end Json

end ImportRepair
