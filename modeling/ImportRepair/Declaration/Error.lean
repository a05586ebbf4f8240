import ImportRepair.Declaration.Argument
import ImportRepair.DepKind

/-!
# Faults of declarations

The causes for which a declaration is refused, and the message for each.
-/

namespace ImportRepair

/-- The coarse classes of failures. -/
inductive FailureClass
  | malformedDeclaration
  | duplicateEntry
  | crossKindEntry
  | unknownRepository
  | policyViolation
  | internal
  deriving DecidableEq, Repr

/-- Why two arguments are no declaration. -/
inductive DeclarationError
  /-- One argument claims every repository and the other is no empty list. -/
  | allWithSibling
  /-- An argument is a string other than the claim of every repository. -/
  | unexpectedText
  /-- One argument alone is left out. -/
  | halfOmitted
  | notSequence (kind : DepKind) (got : ValueType)
  | notString (kind : DepKind) (index : Nat) (got : ValueType)
  | invalidName (kind : DepKind) (name : String)
  | duplicate (kind : DepKind) (name : String)
  /-- A dev entry that is a regular entry too. -/
  | crossKind (name : String)
  deriving DecidableEq, Repr

namespace DeclarationError

/-- The message shown to the author of the extension. -/
def message : DeclarationError → String
  | .allWithSibling =>
    "if one of root_module_direct_deps and root_module_direct_dev_deps is \"all\", " ++
      "the other must be an empty list"
  | .unexpectedText =>
    "root_module_direct_deps and root_module_direct_dev_deps must be None, \"all\", " ++
      "or a list of strings"
  | .halfOmitted =>
    "root_module_direct_deps and root_module_direct_dev_deps must both be specified or both be " ++
      "unspecified"
  | .notSequence kind got =>
    "for " ++ kind.attributeName ++ ", got " ++ got.name ++ ", want sequence"
  | .notString kind index got =>
    "at index " ++ toString index ++ " of " ++ kind.attributeName ++ ", got element of type " ++
      got.name ++ ", want string"
  | .invalidName kind name =>
    "in " ++ kind.attributeName ++ ": invalid user-provided repo name '" ++ name ++
      "': valid names may contain only A-Z, a-z, 0-9, '-', '_', '.', and must start with a letter"
  | .duplicate kind name => "in " ++ kind.attributeName ++ ": duplicate entry '" ++ name ++ "'"
  | .crossKind name =>
    "in root_module_direct_dev_deps: entry '" ++ name ++ "' is also in root_module_direct_deps"

/-- The class of a failure. -/
def failureClass : DeclarationError → FailureClass
  | .duplicate _ _ => .duplicateEntry
  | .crossKind _ => .crossKindEntry
  | _ => .malformedDeclaration

end DeclarationError

end ImportRepair
