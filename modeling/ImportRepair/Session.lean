import ImportRepair.Declaration.Record
import ImportRepair.Declaration.Text
import ImportRepair.Evaluation
import ImportRepair.Repair.Application

/-!
# Sessions

A session follows one extension over a time in which its declaration, what it generates and the
proxies of the root module change, and in which repairs are made and applied.
-/

namespace ImportRepair

/-- What is known of an extension at one time. -/
structure Session where
  declaration : Declaration
  usage : Usage
  /-- The repositories that the extension generates. -/
  generated : RepoSet
  deriving DecidableEq

namespace Session

/-- The session that begins with an evaluation. -/
def ofEvaluation (e : Evaluation) : Except DeclarationError Session := do
  return ⟨← e.declaration, e.usage, e.generated⟩

/-- The repair that is called for. -/
def repair? (s : Session) : Except RepairError (Option Repair) :=
  s.declaration.repair? s.usage s.generated

/-- The session after a repair. -/
def apply (s : Session) (r : Repair) : Except ApplyError Session := do
  return { s with usage := ← s.usage.apply r }

/-- The session with its declaration persisted and loaded again. -/
def reload (s : Session) : Except Json.ReadError Session := do
  return { s with declaration := ← Declaration.load s.declaration.persisted }

/-- Change the proxies. -/
def withProxies (s : Session) (proxies : List Proxy) : Session :=
  { s with usage := { s.usage with proxies := proxies } }

/-- Change the imports of the proxy at an index, if there is one. -/
def changeImports? (s : Session) (index : Nat) (change : AliasMap → AliasMap) : Option Session := do
  let p ← s.usage.proxies[index]?
  return s.withProxies (s.usage.proxies.set index { p with imports := change p.imports })

/-- Add a proxy after all others. -/
def addProxy (s : Session) (p : Proxy) : Session := s.withProxies (s.usage.proxies ++ [p])

/-- Drop the proxy at an index, if there is one. -/
def dropProxy? (s : Session) (index : Nat) : Option Session :=
  if index < s.usage.proxies.length then some (s.withProxies (s.usage.proxies.eraseIdx index))
  else none

end Session

end ImportRepair
