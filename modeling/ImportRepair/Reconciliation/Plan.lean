import ImportRepair.EditPlan
import ImportRepair.Reconciliation.Basic

/-!
# Commands for a difference

Repositories to add go to the first proxy of their kind. Repositories to remove are removed from
every proxy of their kind that imports them, each command naming what its own proxy imports.
-/

namespace ImportRepair

/-- A command for a proxy, placed in the file of the proxy. -/
def Proxy.command (p : Proxy) (action : Action) (repos : RepoSet) : PlacedCommand :=
  ⟨p.path, ⟨action, p.label, repos⟩⟩

namespace ImportDiff

/-- The command that adds the missing repositories of a kind, if there are any. -/
def additions (d : ImportDiff) (proxies : List Proxy) (k : DepKind) :
    Except RepairError (List PlacedCommand) :=
  if d.add.get k = ∅ then .ok []
  else match proxies.find? fun p => p.kind == k with
    | some p => .ok [p.command .add (d.add.get k)]
    | none => .error (.noProxyToAddTo k)

/-- The command that removes what a proxy should not import, if there is anything. -/
def removal? (d : ImportDiff) (p : Proxy) : Option PlacedCommand :=
  let repos := p.repos ∩ d.remove.get p.kind
  if repos = ∅ then none else some (p.command .remove repos)

/-- All commands for a difference: additions, regular before dev, then removals proxy by proxy. -/
def commands (d : ImportDiff) (proxies : List Proxy) : Except RepairError (List PlacedCommand) := do
  let regular ← d.additions proxies .regular
  let dev ← d.additions proxies .dev
  return regular ++ dev ++ proxies.filterMap d.removal?

/-- The commands for a difference, file by file. -/
def plan (d : ImportDiff) (proxies : List Proxy) : Except RepairError EditPlan :=
  (d.commands proxies).map EditPlan.ofList

end ImportDiff

end ImportRepair
