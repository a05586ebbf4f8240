import ImportRepair.Declaration.Basic
import ImportRepair.Json.Reader

/-!
# Declarations from texts

The arguments of a declaration may be given as JSON texts. The regular argument is read before the
dev argument, and both are read before they are validated.
-/

namespace ImportRepair

/-- Read an argument from a JSON text; without a text the argument is left out. -/
def Argument.ofText : Option String → Except Json.ReadError Argument
  | some source => (Json.Reader.readText (Json.Reader.value 0) source).map Argument.ofJson
  | none => .ok .omitted

/-- Why two texts are no declaration. -/
inductive DeclarationTextError
  | unreadable (kind : DepKind) (e : Json.ReadError)
  | invalid (e : DeclarationError)
  deriving DecidableEq, Repr

/-- The two arguments that texts stand for. -/
def Argument.pairOfTexts (deps devDeps : Option String) :
    Except DeclarationTextError (Argument × Argument) :=
  match Argument.ofText deps with
  | .error e => .error (.unreadable .regular e)
  | .ok regular =>
    match Argument.ofText devDeps with
    | .error e => .error (.unreadable .dev e)
    | .ok dev => .ok (regular, dev)

/-- The declaration that texts stand for. -/
def Declaration.ofTexts (deps devDeps : Option String) (reproducible : Bool) :
    Except DeclarationTextError Declaration := do
  let (regular, dev) ← Argument.pairOfTexts deps devDeps
  match Declaration.validate regular dev reproducible with
  | .ok d => .ok d
  | .error e => .error (.invalid e)

end ImportRepair
