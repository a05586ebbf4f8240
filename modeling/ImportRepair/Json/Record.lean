import ImportRepair.Json.Reader

/-!
# Readers of records

A record is described once by its `Fields`: their names in order, how each is read, and which value
a field has when it is absent. The description serves objects, whose members come in any order, and
arrays, whose elements are the fields in order.

## Implementation notes

Problems are met in the order of the text, so the members of an object are first checked one after
the other; the value is then built from the trees under the names of the fields. A field that has
to be there and is not is reported at the end of the record.
-/

namespace ImportRepair.Json

open Reader

/-- One field of a record: its name, how it is checked, and whether it must be there. -/
structure FieldSpec where
  name : String
  check : Tree → Except ReadError Unit
  required : Bool

/-- The fields of a record and the value that is built from the trees under their names. -/
structure Fields (α : Type) where
  specs : List FieldSpec
  build : (String → Option Tree) → Except ReadError α

namespace Fields

/-- A field that must be there. -/
def required {α : Type} (name : String) (reader : Reader α) : Fields α where
  specs := [⟨name, fun t => (reader t).map fun _ => (), true⟩]
  build find :=
    match find name with
    | some t => reader t
    | none => .error (.misfit (.missingField name))

/-- A field with a value of its own when it is absent. -/
def withDefault {α : Type} (name : String) (reader : Reader α) (absent : α) : Fields α where
  specs := [⟨name, fun t => (reader t).map fun _ => (), false⟩]
  build find :=
    match find name with
    | some t => reader t
    | none => .ok absent

/-- Build a value from two groups of fields, the first one before the second. -/
def and {α β γ : Type} (first : Fields α) (second : Fields β) (combine : α → β → γ) :
    Fields γ where
  specs := first.specs ++ second.specs
  build find := do
    let a ← first.build find
    let b ← second.build find
    return combine a b

instance : Functor Fields where
  map f fields := ⟨fields.specs, fun find => (fields.build find).map f⟩

instance : Seq Fields where
  seq f x := f.and (x ()) fun g a => g a

end Fields

namespace Reader

/-- Check the members of a record in order; `seen` are the names of fields that came before. -/
def checkMembers (specs : List FieldSpec) :
    List String → List (Option String × Tree) → Except ReadError Unit
  | _, [] => .ok ()
  | seen, (k, t) :: ms => do
    let name ← key k
    match specs.find? fun s => s.name == name with
    | some s =>
      if name ∈ seen then .error (.misfit (.duplicateField name))
      else do
        s.check t
        checkMembers specs (name :: seen) ms
    | none => do
      skip t
      checkMembers specs seen ms

/-- Check the elements of a record in order, field by field; `index` counts them. -/
def checkItems (record : String) (fields : Nat) :
    Nat → List FieldSpec → List Tree → Bool → Except ReadError Unit
  | _, [], items, closed => if items.isEmpty && closed then .ok () else .error .malformed
  | index, s :: specs, [], closed =>
    if closed = false then .error .malformed
    else if s.required then .error (.misfit (.invalidLength index record fields))
    else checkItems record fields (index + 1) specs [] closed
  | index, s :: specs, t :: ts, closed => do
    s.check t
    checkItems record fields (index + 1) specs ts closed

/-- The tree under a name. -/
def findMember (members : List (Option String × Tree)) (name : String) : Option Tree :=
  (members.find? fun m => m.1 == some name).map (·.2)

/-- Read a record from an object or from an array of its fields in order. -/
def record {α : Type} (name : String) (fields : Fields α) : Reader α
  | .object members closed => do
    checkMembers fields.specs [] members
    if closed then fields.build (findMember members) else .error .malformed
  | .array items closed => do
    checkItems name fields.specs.length 0 fields.specs items closed
    fields.build (findMember (fields.specs.map (fun s => some s.name) |>.zip items))
  | t => refuse ("struct " ++ name) t

end Reader

end ImportRepair.Json
