import ImportRepair.Proofs.Grouping
import ImportRepair.Proofs.PathSpelling

/-!
# Growth of plans

Pushed commands go to the first entry for their path, and paths without an entry get entries of their
own, which are put at the end (`files_pushAll`). So entries keep their places and their spellings, no
command is lost, and none comes before one that was there (`pushAll_outcome`).

## Implementation notes

A plan that was read may hold several entries for one path. The later ones take nothing and stay as
they are, which is why an entry is told by its position here.
-/

namespace ImportRepair

namespace EditPlan

open Relation (EqvGen)

variable {plan : EditPlan} {cs : List PlacedCommand} {path : ModulePath}

/-- The commands that the entry at a position takes: those for its path, unless an entry before it
has the path too. -/
def takenAt (plan : EditPlan) (cs : List PlacedCommand) (i : Nat) (f : FileEdits) : List Command :=
  if ∃ g ∈ plan.files.take i, g.path.Same f.path then [] else commandsFor cs f.path

/-- The commands for paths without an entry. -/
def unfiled (plan : EditPlan) (cs : List PlacedCommand) : List PlacedCommand :=
  cs.filter fun c => ∀ f ∈ plan.files, ¬c.path.Same f.path

theorem takenAt_zero (f : FileEdits) (fs : List FileEdits) (cs : List PlacedCommand) :
    takenAt ⟨f :: fs⟩ cs 0 f = commandsFor cs f.path := by
  simp [takenAt]

/-- What the first entry does not take is left to the others. -/
theorem takenAt_succ (f : FileEdits) (fs : List FileEdits) (cs : List PlacedCommand) (i : Nat)
    (g : FileEdits) :
    takenAt ⟨f :: fs⟩ cs (i + 1) g =
      takenAt ⟨fs⟩ (cs.filter fun c => ¬c.path.Same f.path) i g := by
  by_cases h : f.path.Same g.path
  · have hbefore : ∃ g' ∈ (f :: fs).take (i + 1), g'.path.Same g.path :=
      ⟨f, List.mem_cons_self .., h⟩
    rw [takenAt, takenAt, if_pos hbefore, commandsFor_filter_of_same h, ite_self]
  · have hbefore : (∃ g' ∈ (f :: fs).take (i + 1), g'.path.Same g.path) ↔
        ∃ g' ∈ fs.take i, g'.path.Same g.path := by
      simp [h]
    simp only [takenAt, commandsFor_filter_of_not_same h, hbefore]

theorem unfiled_cons (f : FileEdits) (fs : List FileEdits) (cs : List PlacedCommand) :
    unfiled ⟨f :: fs⟩ cs = unfiled ⟨fs⟩ (cs.filter fun c => ¬c.path.Same f.path) := by
  rw [unfiled, unfiled, List.filter_filter]
  apply List.filter_congr
  intro c _
  simp [Bool.and_comm]

/-- Pushed commands go to the first entry for their path, and the others are grouped at the end. -/
theorem files_pushAll (plan : EditPlan) (cs : List PlacedCommand) :
    (plan.pushAll cs).files =
      (plan.files.mapIdx fun i f => { f with commands := f.commands ++ plan.takenAt cs i f }) ++
        (ofList (plan.unfiled cs)).files := by
  obtain ⟨files⟩ := plan
  induction files generalizing cs with
  | nil =>
      have hall : unfiled ⟨[]⟩ cs = cs := by simp [unfiled]
      rw [hall]
      rfl
  | cons f fs ih =>
      simp only [files_pushAll_cons, ih, List.mapIdx_cons, takenAt_zero, takenAt_succ,
        unfiled_cons, List.cons_append]

theorem not_same_of_mem_unfiled {c : PlacedCommand} (hc : c ∈ plan.unfiled cs) {f : FileEdits}
    (hf : f ∈ plan.files) : ¬f.path.Same c.path := by
  have hall : ∀ f ∈ plan.files, ¬c.path.Same f.path := by
    simpa using (List.mem_filter.mp hc).2
  exact fun h => hall f hf h.symm

/-- A new entry holds all pushed commands for its path. -/
theorem commandsFor_unfiled (h : ∀ f ∈ plan.files, ¬f.path.Same path) :
    commandsFor (plan.unfiled cs) path = commandsFor cs path := by
  apply commandsFor_filter
  intro c hc
  have hnone : ∀ f ∈ plan.files, ¬c.path.Same f.path := fun f hf hcf => h f hf (hcf.symm.trans hc)
  simpa using hnone

theorem mem_firstSpellings_unfiled {p : ModulePath}
    (hp : p ∈ firstSpellings ((plan.unfiled cs).map (·.path))) :
    ∀ f ∈ plan.files, ¬f.path.Same p := by
  obtain ⟨c, hc, rfl⟩ := List.mem_map.mp ((firstSpellings_sublist _).subset hp)
  intro f hf
  exact not_same_of_mem_unfiled hc hf

/-- New entries are for the paths without an entry, in the order and the spellings in which these
are pushed first, and hold the commands for them. -/
theorem files_ofList_unfiled (plan : EditPlan) (cs : List PlacedCommand) :
    (ofList (plan.unfiled cs)).files =
      (firstSpellings ((plan.unfiled cs).map (·.path))).map fun p => ⟨p, commandsFor cs p⟩ := by
  rw [files_ofList]
  apply List.map_congr_left
  intro p hp
  rw [commandsFor_unfiled (mem_firstSpellings_unfiled hp)]

/-- Entries for different paths stay so. -/
theorem pairwise_files_pushAll (h : plan.files.Pairwise fun f g => ¬f.path.Same g.path) :
    (plan.pushAll cs).files.Pairwise fun f g => ¬f.path.Same g.path := by
  rw [files_pushAll, List.pairwise_append]
  refine ⟨?_, pairwise_files_ofList _, ?_⟩
  · rw [List.pairwise_iff_getElem] at h ⊢
    intro i j hi hj hij
    rw [List.getElem_mapIdx, List.getElem_mapIdx]
    rw [List.length_mapIdx] at hi hj
    exact h i j hi hj hij
  · intro f hf g hg
    obtain ⟨i, hi, rfl⟩ := List.mem_mapIdx.mp hf
    rw [files_ofList_unfiled] at hg
    obtain ⟨p, hp, rfl⟩ := List.mem_map.mp hg
    exact mem_firstSpellings_unfiled hp plan.files[i] (List.getElem_mem hi)

/-- Pushed commands come after those that are there for their path. -/
theorem get?_pushAll (plan : EditPlan) (cs : List PlacedCommand) (path : ModulePath) :
    (plan.pushAll cs).get? path =
      if plan.get? path = none ∧ commandsFor cs path = [] then none
      else some ((plan.get? path).getD [] ++ commandsFor cs path) := by
  induction cs generalizing plan with
  | nil =>
      cases h : plan.get? path <;> simp [pushAll, commandsFor, h]
  | cons c cs ih =>
      rw [pushAll_cons, ih, get?_push, commandsFor_cons]
      by_cases hc : c.path.Same path
      · simp [hc]
      · simp [hc]

/-- What pushing commands does to a plan, whatever the plan. Entries keep their places and their
spellings, and the first one for a path takes the commands for the path. Behind them stand entries
for the paths that had none, in the order and the spellings in which these were pushed first. So the
commands of a path are those that were there and then the pushed ones, no command is lost, and
entries for different paths stay so. Paths are told apart whatever their spelling. -/
theorem pushAll_outcome (plan : EditPlan) (cs : List PlacedCommand) :
    (plan.pushAll cs).files =
        (plan.files.mapIdx fun i f => { f with commands := f.commands ++ plan.takenAt cs i f }) ++
          (firstSpellings ((plan.unfiled cs).map (·.path))).map (fun p => ⟨p, commandsFor cs p⟩) ∧
      (∀ path, (plan.pushAll cs).get? path =
        if plan.get? path = none ∧ commandsFor cs path = [] then none
        else some ((plan.get? path).getD [] ++ commandsFor cs path)) ∧
      (plan.pushAll cs).size = plan.size + cs.length ∧
      (plan.files.Pairwise (fun f g => ¬f.path.Same g.path) →
        (plan.pushAll cs).files.Pairwise fun f g => ¬f.path.Same g.path) ∧
      ∀ p q : ModulePath, p.Same q ↔ EqvGen ModulePath.SpellingStep p q := by
  refine ⟨?_, get?_pushAll plan cs, size_pushAll plan cs, pairwise_files_pushAll,
    fun _ _ => ModulePath.same_iff_eqvGen⟩
  rw [files_pushAll, files_ofList_unfiled]

/-- A plan with entries for two files. -/
def startedPlan : EditPlan where
  files := [
    { path := ⟨"sub//extra.bazel"⟩, commands := [.ofList .remove "more" ["d"]] },
    { path := ⟨"MODULE.bazel"⟩, commands := [] }]

/-- Commands for one of the two files in other spellings and for two new files, one of which has a
leading `.`. -/
def spelledCommands : List PlacedCommand := [
  { path := ⟨"sub/./extra.bazel"⟩, command := .ofList .add "more" ["a"] },
  { path := ⟨"./MODULE.bazel"⟩, command := .ofList .add "ext" ["b"] },
  { path := ⟨"/MODULE.bazel"⟩, command := .ofList .add "ext" ["c"] },
  { path := ⟨"sub/extra.bazel/"⟩, command := .ofList .remove "more" ["e"] },
  { path := ⟨".//MODULE.bazel"⟩, command := .ofList .remove "ext" ["f"] }]

theorem pushAll_outcome_of_startedPlan :
    startedPlan.files.Pairwise (fun f g => ¬f.path.Same g.path) ∧
      (startedPlan.pushAll spelledCommands).files.Pairwise (fun f g => ¬f.path.Same g.path) ∧
      (startedPlan.pushAll spelledCommands).files.map (fun f => (f.path.text, f.commands.length)) =
        [("sub//extra.bazel", 3), ("MODULE.bazel", 0), ("./MODULE.bazel", 2),
          ("/MODULE.bazel", 1)] := by
  obtain ⟨hfiles, -, -, hpairwise, -⟩ := pushAll_outcome startedPlan spelledCommands
  have hstart : startedPlan.files.Pairwise fun f g => ¬f.path.Same g.path := by decide
  refine ⟨hstart, hpairwise hstart, ?_⟩
  rw [hfiles]
  decide

/-- Of two entries for one path the first one alone takes commands. -/
example : (pushAll ⟨[⟨⟨"a"⟩, []⟩, ⟨⟨"a/"⟩, []⟩]⟩ [⟨⟨"a"⟩, .ofList .add "ext" ["b"]⟩]).files =
    [⟨⟨"a"⟩, [.ofList .add "ext" ["b"]]⟩, ⟨⟨"a/"⟩, []⟩] := by
  decide

end EditPlan

end ImportRepair
