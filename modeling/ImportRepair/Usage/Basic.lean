import ImportRepair.AliasMap
import ImportRepair.DepKind
import ImportRepair.ModulePath

/-!
# Usages of a module extension

The root module uses an extension through proxies. Each proxy stands in one module file, belongs to
one kind of dependencies and imports repositories under aliases.
-/

namespace ImportRepair

/-- A position in a file, to which a diagnostic is attached. -/
structure Location where
  file : String
  line : UInt32 := 0
  column : UInt32 := 0
  deriving DecidableEq, Repr

namespace Location

/-- The file, the line and the column, with colons between them. -/
def text (l : Location) : String :=
  l.file ++ ":" ++ toString l.line.toNat ++ ":" ++ toString l.column.toNat

end Location

/-- One proxy of an extension and what is imported through it. -/
structure Proxy where
  /-- The module file that declares the proxy. -/
  path : ModulePath
  /-- The name the proxy is bound to; empty when it is anonymous. -/
  name : String := ""
  /-- The kind of dependencies it imports. -/
  kind : DepKind := .regular
  /-- The imported repositories under their aliases. -/
  imports : AliasMap := ∅
  /-- The place of the declaration. -/
  location : Location
  deriving DecidableEq

namespace Proxy

/-- The label of a proxy that is bound to no name. -/
def anonymousLabel : String := "_unnamed_usage"

/-- The word by which commands address a proxy within its file. -/
def label (p : Proxy) : String := if p.name = "" then anonymousLabel else p.name

/-- The repositories imported through a proxy. -/
def repos (p : Proxy) : RepoSet := RepoSet.ofList p.imports.repos

theorem mem_repos {p : Proxy} {n : String} :
    n ∈ p.repos ↔ ∃ key, (key, n) ∈ p.imports.toList := by
  simp [repos, AliasMap.repos]

/-- Holds when a path and a label address a proxy. -/
def AddressedBy (path : ModulePath) (label : String) (p : Proxy) : Prop :=
  p.path.Same path ∧ p.label = label

instance (path : ModulePath) (label : String) (p : Proxy) :
    Decidable (p.AddressedBy path label) :=
  inferInstanceAs (Decidable (_ ∧ _))

end Proxy

/-- All proxies of one extension in the root module, in the order of their declarations. -/
structure Usage where
  /-- The file that defines the extension. -/
  bzlFile : String
  /-- The name of the extension in that file. -/
  extensionName : String
  /-- The proxies in declaration order. -/
  proxies : List Proxy
  deriving DecidableEq

namespace Usage

/-- Holds when some proxy is of a kind. -/
def has (u : Usage) (k : DepKind) : Bool := u.proxies.any fun p => p.kind == k

/-- The repositories imported by the proxies of each kind. -/
def imported (u : Usage) : PerKind RepoSet :=
  .of fun k => RepoSet.ofList ((u.proxies.filter fun p => p.kind == k).flatMap (·.imports.repos))

theorem mem_imported {u : Usage} {k : DepKind} {n : String} :
    n ∈ u.imported.get k ↔ ∃ p ∈ u.proxies, p.kind = k ∧ n ∈ p.repos := by
  simp [imported, Proxy.repos, and_assoc]

end Usage

end ImportRepair
