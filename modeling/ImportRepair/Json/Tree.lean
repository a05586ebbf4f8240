import ImportRepair.Json.Token
import ImportRepair.Json.Value

/-!
# Trees of JSON texts

Every text has a tree. Where a text stops being JSON its tree has a `broken` leaf, and the arrays
and objects around that place are not closed. A reader that goes through a tree in order therefore
meets the first problem of the text first, whether it is one of form or one of shape.

## Implementation notes

`fuel` bounds the depth of the recursion; each of its steps takes at least one token with every
second unit, so twice the number of tokens is enough. After a broken leaf no tokens are left.
-/

namespace ImportRepair.Json

/-- The tree of a text, which may be broken off at some place. -/
inductive Tree
  | null
  | boolean (b : Bool)
  | number (n : Number)
  | string (s : Option String)
  | array (items : List Tree) (closed : Bool)
  | object (members : List (Option String × Tree)) (closed : Bool)
  | broken
  deriving Repr

namespace Tree

mutual

/-- The tree of the value at the front of some tokens, and the tokens after it. -/
def ofTokens (fuel : Nat) (ts : List Token) : Tree × List Token :=
  match fuel, ts with
  | 0, _ => (.broken, [])
  | _, [] => (.broken, [])
  | _, .openBracket :: .closeBracket :: ts => (.array [] true, ts)
  | fuel + 1, .openBracket :: ts =>
    let (items, closed, ts) := itemsOfTokens fuel ts
    (.array items closed, ts)
  | _, .openBrace :: .closeBrace :: ts => (.object [] true, ts)
  | fuel + 1, .openBrace :: ts => membersOfTokens fuel [] ts
  | _, .null :: ts => (.null, ts)
  | _, .boolean b :: ts => (.boolean b, ts)
  | _, .number l :: ts => (.number l.number, ts)
  | _, .string s :: ts => (.string s, ts)
  | _, _ => (.broken, [])

/-- The elements up to the closing bracket, and whether there is one. -/
def itemsOfTokens (fuel : Nat) (ts : List Token) : List Tree × Bool × List Token :=
  match fuel with
  | 0 => ([.broken], false, [])
  | fuel + 1 =>
    let (t, ts) := ofTokens fuel ts
    match ts with
    | .comma :: ts =>
      let (items, closed, ts) := itemsOfTokens fuel ts
      (t :: items, closed, ts)
    | .closeBracket :: ts => ([t], true, ts)
    | _ => ([t], false, [])

/-- The object with the given members and those up to the closing brace. -/
def membersOfTokens (fuel : Nat) (done : List (Option String × Tree)) (ts : List Token) :
    Tree × List Token :=
  match fuel, ts with
  | 0, _ => (.object done false, [])
  | fuel + 1, .string k :: .colon :: ts =>
    let (t, ts) := ofTokens fuel ts
    match ts with
    | .comma :: ts => membersOfTokens fuel (done ++ [(k, t)]) ts
    | .closeBrace :: ts => (.object (done ++ [(k, t)]) true, ts)
    | _ => (.object (done ++ [(k, t)]) false, [])
  | _, .string k :: _ => (.object (done ++ [(k, .broken)]) false, [])
  | _, _ => (.object done false, [])

end

mutual

/-- Holds for the trees that are nowhere broken off. -/
def complete : Tree → Bool
  | .array items closed => completeItems items && closed
  | .object members closed => completeMembers members && closed
  | .broken => false
  | _ => true

/-- Holds when no element is broken off. -/
def completeItems : List Tree → Bool
  | [] => true
  | t :: ts => t.complete && completeItems ts

/-- Holds when no member is broken off. -/
def completeMembers : List (Option String × Tree) → Bool
  | [] => true
  | (_, t) :: ms => t.complete && completeMembers ms

end

mutual

/-- The tree of a value. -/
def ofJson : Json → Tree
  | .null => .null
  | .boolean b => .boolean b
  | .integer n => .number (.integer n)
  | .float negative x => .number (.float negative x)
  | .string s => .string (some s)
  | .array items => .array (ofJsonItems items) true
  | .object members => .object (ofJsonMembers members) true

/-- The trees of some values. -/
def ofJsonItems : List Json → List Tree
  | [] => []
  | v :: vs => ofJson v :: ofJsonItems vs

/-- The trees of some members. -/
def ofJsonMembers : List (String × Json) → List (Option String × Tree)
  | [] => []
  | (k, v) :: ms => (some k, ofJson v) :: ofJsonMembers ms

end

end Tree

/-- A text as a tree, and whether the text ends after it. -/
structure Document where
  root : Tree
  ended : Bool

/-- The tree of a text. -/
def Document.ofText (text : String) : Document :=
  let ts := tokens text.toList
  let (root, rest) := Tree.ofTokens (2 * ts.length + 1) ts
  ⟨root, rest.isEmpty⟩

end ImportRepair.Json
