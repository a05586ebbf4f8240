import ImportRepair.Json.Value

/-!
# Arguments of a declaration

An extension declares its direct dependencies by two loosely typed arguments. An argument is sorted
by its shape first; whether the shape is acceptable is decided later, for both arguments together.
-/

namespace ImportRepair

/-- The type of a value, as extension authors know it. -/
inductive ValueType
  | none
  | bool
  | int
  | float
  | string
  | list
  | dict
  deriving DecidableEq, Repr

/-- The name of a type in the language of extensions. -/
def ValueType.name : ValueType → String
  | .none => "NoneType"
  | .bool => "bool"
  | .int => "int"
  | .float => "float"
  | .string => "string"
  | .list => "list"
  | .dict => "dict"

/-- The type of a value. -/
def Json.valueType : Json → ValueType
  | .null => .none
  | .boolean _ => .bool
  | .integer _ => .int
  | .float _ _ => .float
  | .string _ => .string
  | .array _ => .list
  | .object _ => .dict

/-- An argument of a declaration, sorted by its shape. -/
inductive Argument
  /-- The argument is left out. -/
  | omitted
  /-- A single string; `all` claims every repository. -/
  | text (s : String)
  | names (ns : List String)
  /-- A list whose first element that is no string has this index and type. -/
  | mixed (index : Nat) (got : ValueType)
  /-- A value that is neither a string nor a list. -/
  | other (got : ValueType)
  deriving DecidableEq, Repr

namespace Argument

/-- The argument by which one kind claims every repository. -/
def all : Argument := .text "all"

/-- The strings of a list, or the index and the type of its first element that is none. -/
def sortItems (index : Nat) : List Json → Except (Nat × ValueType) (List String)
  | [] => .ok []
  | .string s :: vs => (sortItems (index + 1) vs).map (s :: ·)
  | v :: _ => .error (index, v.valueType)

/-- Sort a value by its shape. -/
def ofJson : Json → Argument
  | .null => .omitted
  | .string s => .text s
  | .array items =>
    match sortItems 0 items with
    | .ok ns => .names ns
    | .error (index, got) => .mixed index got
  | v => .other v.valueType

/-- The argument for a list that may be absent. -/
def ofOption : Option (List String) → Argument
  | some ns => .names ns
  | none => .omitted

@[simp] theorem sortItems_strings (index : Nat) (ns : List String) :
    sortItems index (ns.map .string) = .ok ns := by
  induction ns generalizing index with
  | nil => rfl
  | cons n ns ih => simp [sortItems, ih, Except.map]

@[simp] theorem ofJson_strings (ns : List String) : ofJson (.strings ns) = .names ns := by
  simp [ofJson, Json.strings]

end Argument

end ImportRepair
