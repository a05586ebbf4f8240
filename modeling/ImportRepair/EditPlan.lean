import ImportRepair.Command
import ImportRepair.ModulePath

/-!
# Edit plans

An edit plan lists commands file by file. Commands for spellings of one path share an entry, which
keeps the spelling that came first; entries stand in the order of their first commands.

## Implementation notes

`push` changes the first entry for the path alone, so a plan that was read with several entries for
one path keeps the later ones as they are.
-/

namespace ImportRepair

/-- The commands for one module file, in order. -/
structure FileEdits where
  path : ModulePath
  commands : List Command
  deriving DecidableEq

/-- A command together with the file it is for. -/
structure PlacedCommand where
  path : ModulePath
  command : Command
  deriving DecidableEq

/-- The commands of a repair, file by file. -/
structure EditPlan where
  files : List FileEdits
  deriving DecidableEq

namespace EditPlan

/-- The plan without files. -/
def empty : EditPlan := ⟨[]⟩

instance : EmptyCollection EditPlan := ⟨empty⟩

/-- Add a command to the first entry for its path, or at the end in an entry of its own. -/
def pushInto (path : ModulePath) (c : Command) : List FileEdits → List FileEdits
  | [] => [⟨path, [c]⟩]
  | f :: fs =>
    if f.path.Same path then { f with commands := f.commands ++ [c] } :: fs
    else f :: pushInto path c fs

/-- Add a command after all others for its file. -/
def push (plan : EditPlan) (path : ModulePath) (c : Command) : EditPlan :=
  ⟨pushInto path c plan.files⟩

/-- The plan that holds the given commands in order. -/
def ofList (cs : List PlacedCommand) : EditPlan :=
  cs.foldl (fun plan c => plan.push c.path c.command) ∅

/-- The commands of the first entry for a path. -/
def get? (plan : EditPlan) (path : ModulePath) : Option (List Command) :=
  (plan.files.find? fun f => f.path.Same path).map (·.commands)

/-- The number of commands. -/
def size (plan : EditPlan) : Nat := (plan.files.flatMap (·.commands)).length

/-- Holds for a plan without files. -/
def isEmpty (plan : EditPlan) : Bool := plan.files.isEmpty

/-- All commands with their files, in order. -/
def toList (plan : EditPlan) : List PlacedCommand :=
  plan.files.flatMap fun f => f.commands.map fun c => ⟨f.path, c⟩

@[simp] theorem size_empty : (∅ : EditPlan).size = 0 := rfl

@[simp] theorem get?_empty (path : ModulePath) : (∅ : EditPlan).get? path = none := rfl

/-- A pushed command is the last one for every spelling of its path, and for no other path. -/
theorem get?_push (plan : EditPlan) (path q : ModulePath) (c : Command) :
    (plan.push path c).get? q =
      if path.Same q then some ((plan.get? q).getD [] ++ [c]) else plan.get? q := by
  obtain ⟨files⟩ := plan
  simp only [push, get?]
  induction files with
  | nil =>
    by_cases h : path.Same q <;> simp [pushInto, h]
  | cons f fs ih =>
    simp only [pushInto]
    by_cases hf : f.path.Same path
    · by_cases h : path.Same q
      · have hq : f.path.Same q := hf.trans h
        simp [hf, h, hq]
      · have hq : ¬f.path.Same q := fun hq => h (hf.symm.trans hq)
        simp [hf, h, hq]
    · by_cases hq : f.path.Same q
      · have h : ¬path.Same q := fun h => hf (hq.trans h.symm)
        simp [hf, h, hq]
      · simpa [hf, hq] using ih

theorem size_push (plan : EditPlan) (path : ModulePath) (c : Command) :
    (plan.push path c).size = plan.size + 1 := by
  obtain ⟨files⟩ := plan
  simp only [push, size]
  induction files with
  | nil => simp [pushInto]
  | cons f fs ih =>
    simp only [pushInto]
    split
    · simp only [List.flatMap_cons, List.length_append, List.length_cons, List.length_nil]
      omega
    · simp only [List.flatMap_cons, List.length_append, ih]
      omega

theorem length_toList (plan : EditPlan) : plan.toList.length = plan.size := by
  obtain ⟨files⟩ := plan
  simp only [toList, size]
  induction files with
  | nil => rfl
  | cons f fs ih =>
    simp only [List.flatMap_cons, List.length_append, List.length_map, ih]

end EditPlan

end ImportRepair
