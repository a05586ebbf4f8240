import ImportRepair.Json.Tree
import ImportRepair.Text.Quoted

/-!
# Typed readers of JSON trees

A reader turns a tree into a value or reports the first problem of the text: a place where it is no
JSON, or a value of the wrong shape.

## Implementation notes

Readers look at a tree from left to right, as far as they need it, and so does every reader made
from others.
-/

namespace ImportRepair.Json

/-- What was found where something else was wanted. -/
inductive Found
  | null
  | boolean (b : Bool)
  | integer (n : Int)
  | float (negative : Bool) (x : Binary64)
  | string (s : String)
  | sequence
  | map
  deriving DecidableEq, Repr

/-- The words for what was found. -/
def Found.text : Found → String
  | .null => "null"
  | .boolean b => "boolean `" ++ (if b then "true" else "false") ++ "`"
  | .integer n => "integer `" ++ toString n ++ "`"
  | .float negative x => "floating point `" ++ x.text negative ++ "`"
  | .string s => "string " ++ quoted s
  | .sequence => "sequence"
  | .map => "map"

/-- How a value of a text misses the shape that is wanted. -/
inductive Misfit
  | wrongType (found : Found) (want : String)
  | outOfRange (n : Int) (want : String)
  | missingField (name : String)
  | duplicateField (name : String)
  | invalidLength (length : Nat) (record : String) (fields : Nat)
  | unknownVariant (name : String) (names : List String)
  /-- A record that breaks a rule of its own, with the message of that rule. -/
  | rejected (message : String)
  deriving DecidableEq, Repr

/-- Names in words, as in the list of choices. -/
def choices (names : List String) : String :=
  let quotedNames := names.map fun n => "`" ++ n ++ "`"
  match quotedNames with
  | [a, b] => a ++ " or " ++ b
  | _ => "one of " ++ ", ".intercalate quotedNames

/-- The message for a value of the wrong shape. -/
def Misfit.message : Misfit → String
  | .wrongType found want => "invalid type: " ++ found.text ++ ", expected " ++ want
  | .outOfRange n want => "invalid value: integer `" ++ toString n ++ "`, expected " ++ want
  | .missingField name => "missing field `" ++ name ++ "`"
  | .duplicateField name => "duplicate field `" ++ name ++ "`"
  | .invalidLength length record fields =>
    "invalid length " ++ toString length ++ ", expected struct " ++ record ++ " with " ++
      toString fields ++ " elements"
  | .unknownVariant name names =>
    "unknown variant `" ++ name ++ "`, expected " ++ choices names
  | .rejected message => message

/-- Why a text gives no value. -/
inductive ReadError
  /-- The text is no JSON. -/
  | malformed
  | misfit (m : Misfit)
  deriving DecidableEq, Repr

/-- A way to read a value from a tree. -/
abbrev Reader (α : Type) := Tree → Except ReadError α

namespace Reader

/-- Refuse a tree because something else is wanted. -/
def refuse {α : Type} (want : String) (t : Tree) : Except ReadError α :=
  let wrong (found : Found) : Except ReadError α := .error (.misfit (.wrongType found want))
  match t with
  | .null => wrong .null
  | .boolean b => wrong (.boolean b)
  | .number (.integer n) => wrong (.integer n)
  | .number (.float negative x) => wrong (.float negative x)
  | .number .tooLarge => .error .malformed
  | .string (some s) => wrong (.string s)
  | .string none => .error .malformed
  | .array _ _ => wrong .sequence
  | .object _ _ => wrong .map
  | .broken => .error .malformed

/-- Pass over a value of any shape. -/
def skip : Reader Unit := fun t => if t.complete then .ok () else .error .malformed

/-- Read a string, named in messages by what is wanted. -/
def stringAs (want : String) : Reader String
  | .string (some s) => .ok s
  | t => refuse want t

/-- Read a string. -/
def string : Reader String := stringAs "a string"

/-- Read a truth value. -/
def boolean : Reader Bool
  | .boolean b => .ok b
  | t => refuse "a boolean" t

/-- Read an integer of 32 bits without sign. -/
def uint32 : Reader UInt32
  | .number (.integer n) =>
    if 0 ≤ n ∧ n.toNat < UInt32.size then .ok (UInt32.ofNat n.toNat)
    else .error (.misfit (.outOfRange n "u32"))
  | t => refuse "u32" t

/-- Read the elements of an array. -/
def list {α : Type} (item : Reader α) : Reader (List α)
  | .array items closed => do
    let values ← items.mapM item
    if closed then .ok values else .error .malformed
  | t => refuse "a sequence" t

/-- Read a value or `null`. -/
def optional {α : Type} (value : Reader α) : Reader (Option α)
  | .null => .ok none
  | t => (value t).map some

/-- Read the key of a member. -/
def key : Option String → Except ReadError String
  | some k => .ok k
  | none => .error .malformed

/-- Read the members of an object, in order. -/
def entries {α : Type} (value : Reader α) : Reader (List (String × α))
  | .object members closed => do
    let es ← members.mapM fun m => do return (← key m.1, ← value m.2)
    if closed then .ok es else .error .malformed
  | t => refuse "a map" t

/-- The value that a name stands for. -/
def ofName {α : Type} (names : List (String × α)) (name : String) : Except ReadError α :=
  match names.lookup name with
  | some a => .ok a
  | none => .error (.misfit (.unknownVariant name (names.map (·.1))))

/-- Read one of some names, or an object that has the name as its only key and `null` below it. -/
def variant {α : Type} (names : List (String × α)) : Reader α
  | .string (some name) => ofName names name
  | .object ((k, t) :: more) closed => do
    let a ← ofName names (← key k)
    match t with
    | .null => if more.isEmpty && closed then .ok a else .error .malformed
    | t => refuse "unit" t
  | _ => .error .malformed

mutual

/-- Read a value of any shape in which arrays and objects are nested at most `depth` deep. -/
def valueWithin (depth : Nat) : Tree → Except ReadError Json
  | .null => .ok .null
  | .boolean b => .ok (.boolean b)
  | .number (.integer n) => .ok (.integer n)
  | .number (.float negative x) => .ok (.float negative x)
  | .string (some s) => .ok (.string s)
  | .array items true =>
    match depth with
    | 0 => .error .malformed
    | depth + 1 => do return .array (← itemsWithin depth items)
  | .object members true =>
    match depth with
    | 0 => .error .malformed
    | depth + 1 => do return .object (← membersWithin depth members)
  | _ => .error .malformed

/-- Read elements of any shape. -/
def itemsWithin (depth : Nat) : List Tree → Except ReadError (List Json)
  | [] => .ok []
  | t :: ts => do
    let v ← valueWithin depth t
    return v :: (← itemsWithin depth ts)

/-- Read members of any shape. -/
def membersWithin (depth : Nat) :
    List (Option String × Tree) → Except ReadError (List (String × Json))
  | [] => .ok []
  | (k, t) :: ms => do
    let k ← key k
    let v ← valueWithin depth t
    return (k, v) :: (← membersWithin depth ms)

end

/-- The greatest number of arrays and objects that may stand in one another. -/
def maxDepth : Nat := 127

/-- Read a value of any shape that stands inside `outer` arrays and objects. -/
def value (outer : Nat) : Reader Json := valueWithin (maxDepth - outer)

/-- Read a value that has rules of its own, of which a broken one rejects it. -/
def checked {α β ε : Type} (reader : Reader α) (make : α → Except ε β) (message : ε → String) :
    Reader β := fun t => do
  match make (← reader t) with
  | .ok b => .ok b
  | .error e => .error (.misfit (.rejected (message e)))

/-- Read a text that holds one value and nothing after it. -/
def readText {α : Type} (reader : Reader α) (text : String) : Except ReadError α := do
  let document := Document.ofText text
  let a ← reader document.root
  if document.ended then .ok a else .error .malformed

end Reader

end ImportRepair.Json
