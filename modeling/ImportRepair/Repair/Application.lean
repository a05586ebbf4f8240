import ImportRepair.Repair.Basic

/-!
# Application of repairs

An editor of module files gets the text of each command together with the file it is for. It reads
the text, looks for the first proxy with that path and label, and changes the imports of the proxy.
-/

namespace ImportRepair

/-- Why a command cannot be applied. -/
inductive ApplyError
  /-- The text of the command cannot be read. -/
  | unreadable (e : CommandError)
  /-- No proxy has the path and the label of the command. -/
  | noSuchProxy (path : ModulePath) (label : String)
  deriving DecidableEq, Repr

namespace Proxy

/-- Carry out a command at a proxy. An added repository gets its own name as its alias. -/
def execute (p : Proxy) (c : Command) : Proxy :=
  match c.action with
  | .add => { p with imports := p.imports.withRepos c.repos }
  | .remove => { p with imports := p.imports.withoutRepos c.repos }

end Proxy

/-- Carry out a command at the first proxy that a path addresses with the label of the command. -/
def executeFirst (path : ModulePath) (c : Command) : List Proxy → Option (List Proxy)
  | [] => none
  | p :: ps =>
    if p.AddressedBy path c.label then some (p.execute c :: ps)
    else (executeFirst path c ps).map (p :: ·)

namespace Usage

/-- Carry out a command in a file. -/
def execute (u : Usage) (path : ModulePath) (c : Command) : Except ApplyError Usage :=
  match executeFirst path c u.proxies with
  | some proxies => .ok { u with proxies := proxies }
  | none => .error (.noSuchProxy path c.label)

/-- Carry out the command that a text stands for. -/
def executeText (u : Usage) (path : ModulePath) (text : String) : Except ApplyError Usage :=
  match Command.parse text with
  | .ok c => u.execute path c
  | .error e => .error (.unreadable e)

/-- Carry out placed commands in order, each as a text. -/
def executeAll (u : Usage) (cs : List PlacedCommand) : Except ApplyError Usage :=
  cs.foldlM (fun u c => u.executeText c.path c.command.text) u

/-- Apply a repair. -/
def apply (u : Usage) (r : Repair) : Except ApplyError Usage := u.executeAll r.commands.toList

end Usage

end ImportRepair
