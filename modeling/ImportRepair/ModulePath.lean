/-!
# Paths of module files

A path keeps the spelling it was given, and two spellings name the same file when their components
agree. Repeated and trailing slashes and the components `.` after the first do not count; a first
`.`, every `..` and a leading slash do.
-/

namespace ImportRepair

/-- What a path is made of once its spelling is forgotten. -/
inductive PathComponent
  /-- The leading slash. -/
  | root
  /-- A leading `.`. -/
  | here
  /-- Any other name, `..` included. -/
  | name (chars : List Char)
  deriving DecidableEq, Repr

/-- The stretches between slashes; one more than there are slashes. -/
def slashParts : List Char → List (List Char)
  | [] => [[]]
  | c :: cs =>
    if c = '/' then [] :: slashParts cs
    else match slashParts cs with
      | [] => [[c]]
      | p :: ps => (c :: p) :: ps

/-- A path as it was spelled. -/
structure ModulePath where
  /-- The spelling. -/
  text : String
  deriving DecidableEq, Repr

namespace ModulePath

/-- Holds for the stretches that are components wherever they stand. -/
def isName (part : List Char) : Bool := part != [] && part != ['.']

/-- The components of a path. -/
def components (p : ModulePath) : List PathComponent :=
  let parts := slashParts p.text.toList
  let names := (parts.filter isName).map .name
  if p.text.toList.head? = some '/' then .root :: names
  else if parts.head? = some ['.'] then .here :: names
  else names

/-- Two spellings of one path. -/
def Same (p q : ModulePath) : Prop := p.components = q.components

instance (p q : ModulePath) : Decidable (p.Same q) :=
  inferInstanceAs (Decidable (p.components = q.components))

@[simp] theorem same_refl (p : ModulePath) : p.Same p := rfl

theorem Same.symm {p q : ModulePath} (h : p.Same q) : q.Same p := Eq.symm h

theorem Same.trans {p q r : ModulePath} (h : p.Same q) (h' : q.Same r) : p.Same r :=
  Eq.trans h h'

end ModulePath

end ImportRepair
