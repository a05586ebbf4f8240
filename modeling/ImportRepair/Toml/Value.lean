/-!
# TOML values

The values of a TOML document. What a number or a date says does not matter to any reader here, so
a float or a date is only known to be one.

## Implementation notes

A number may be written in a way that a document allows and still have no value. It is a value of
its own, because only a reader that looks at it has to refuse the document.
-/

namespace ImportRepair

/-- A TOML value; the entries of a table keep the order of their keys. -/
inductive Toml
  | string (s : String)
  | integer (n : Int)
  | float
  /-- A number that is too great, or that has letters among its digits. -/
  | unreadable
  | boolean (b : Bool)
  | datetime
  | array (items : List Toml)
  | table (entries : List (String × Toml))
  deriving Repr

namespace Toml

mutual

/-- Holds for the values that have no unreadable number in them. -/
def isReadable : Toml → Bool
  | .unreadable => false
  | .array items => itemsReadable items
  | .table entries => entriesReadable entries
  | _ => true

/-- Holds when every element is readable. -/
def itemsReadable : List Toml → Bool
  | [] => true
  | v :: vs => v.isReadable && itemsReadable vs

/-- Holds when every value of a table is readable. -/
def entriesReadable : List (String × Toml) → Bool
  | [] => true
  | (_, v) :: es => v.isReadable && entriesReadable es

end

/-- The space characters within a line. -/
def isSpace (c : Char) : Bool := c == ' ' || c == '\t'

/-- Holds for the characters that may stand in comments and strings; line ends are not among
them. -/
def isPlain (c : Char) : Bool := c == '\t' || (0x20 ≤ c.toNat && c.toNat != 0x7F)

/-- Take a line end off the front of a text. -/
def newline? : List Char → Option (List Char)
  | '\n' :: cs => some cs
  | '\r' :: '\n' :: cs => some cs
  | _ => none

/-- Drop spaces at the front of a text. -/
def skipSpaces (cs : List Char) : List Char := cs.dropWhile isSpace

/-- Drop a comment at the front of a text, up to the end of its line. -/
def skipComment : List Char → List Char
  | '#' :: cs => cs.dropWhile isPlain
  | cs => cs

/-- Drop spaces, comments and line ends at the front of a text; `inComment` tells that the text
begins within a comment. -/
def skipGaps (inComment : Bool) : List Char → List Char
  | [] => []
  | c :: cs =>
    if c = '\n' then skipGaps false cs
    else if c = '\r' ∧ cs.head? = some '\n' then skipGaps false cs
    else if inComment then
      if isPlain c then skipGaps true cs else c :: cs
    else if isSpace c then skipGaps false cs
    else if c = '#' then skipGaps true cs
    else c :: cs

end Toml

end ImportRepair
