import ImportRepair.Declaration.Error

/-!
# Failures to make a repair

A declaration that was accepted may still not fit the repositories that were generated or the
proxies of the root module.
-/

namespace ImportRepair

/-- Why imports cannot be repaired. -/
inductive RepairError
  /-- A list names repositories that the extension did not generate, here in declaration order. -/
  | unknownRepos (kind : DepKind) (names : List String)
  /-- Imports are called for of one kind, and nothing is said of the other. -/
  | oneKindAlone
  /-- Imports of a kind are expected and no proxy is of that kind. -/
  | unusedKind (kind : DepKind)
  /-- Imports are to be added and no proxy is of their kind. -/
  | noProxyToAddTo (kind : DepKind)
  /-- Imports are to be changed and there is no proxy at all. -/
  | noProxies
  deriving DecidableEq, Repr

namespace RepairError

/-- The literal of the flag of a kind in the language of module files. -/
def flagLiteral : DepKind → String
  | .regular => "False"
  | .dev => "True"

/-- The message shown to the user. -/
def message : RepairError → String
  | .unknownRepos kind names =>
    kind.attributeName ++
      " contained the following repositories not generated by the extension: " ++
      ", ".intercalate names
  | .oneKindAlone =>
    "internal invariant violated: expected imports resolved for only one dependency category"
  | .unusedKind kind =>
    kind.attributeName ++
      " must be empty if the root module contains no usages with dev_dependency = " ++
      flagLiteral kind
  | .noProxyToAddTo kind =>
    "internal invariant violated: no proxy with dev_dependency = " ++
      (if kind.isDev then "true" else "false") ++ " to add imports to"
  | .noProxies => "internal invariant violated: fixup requested for a usage without proxies"

/-- The class of a failure. -/
def failureClass : RepairError → FailureClass
  | .unknownRepos _ _ => .unknownRepository
  | .oneKindAlone => .internal
  | .unusedKind _ => .policyViolation
  | .noProxyToAddTo _ => .internal
  | .noProxies => .internal

end RepairError

/-- Holds for the failures that an input can cause. -/
def FailureClass.isUserError (c : FailureClass) : Bool := c != .internal

end ImportRepair
