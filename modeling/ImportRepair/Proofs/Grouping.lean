import ImportRepair.EditPlan

/-!
# Commands file by file

Grouping puts the commands for one file together. The files stand in the order in which they come
first and keep the spelling they have there, and each holds its commands in their order
(`files_ofList`), so no command is lost, repeated or moved before another one for its file. All
commands together are a rearrangement of those that were grouped (`perm_toList_ofList`).

## Implementation notes

A command that is pushed reaches the first entry for its path. So the first entry of a plan takes all
commands for its path, and the rest of the plan gets the others (`files_pushAll_cons`). This holds of
every plan, also where entries share a path.
-/

namespace ImportRepair

/-- The paths of a list that are no other spelling of a path before them. -/
def firstSpellings : List ModulePath → List ModulePath
  | [] => []
  | p :: ps => p :: (firstSpellings ps).filter fun q => ¬q.Same p

/-- The commands for the file of a path, in order. -/
def commandsFor (cs : List PlacedCommand) (path : ModulePath) : List Command :=
  (cs.filter fun c => c.path.Same path).map (·.command)

variable {cs : List PlacedCommand} {ps : List ModulePath} {p q path : ModulePath}

theorem firstSpellings_sublist (ps : List ModulePath) : (firstSpellings ps).Sublist ps := by
  induction ps with
  | nil => exact List.Sublist.slnil
  | cons p ps ih => exact (List.filter_sublist.trans ih).cons_cons p

/-- No path is listed in two spellings. -/
theorem pairwise_firstSpellings (ps : List ModulePath) :
    (firstSpellings ps).Pairwise fun p q => ¬p.Same q := by
  induction ps with
  | nil => exact List.Pairwise.nil
  | cons p ps ih =>
      refine List.pairwise_cons.mpr ⟨?_, ih.filter _⟩
      intro q hq hpq
      have hqp : ¬q.Same p := by simpa using (List.mem_filter.mp hq).2
      exact hqp hpq.symm

/-- Every path is listed in some spelling. -/
theorem exists_mem_firstSpellings (hp : p ∈ ps) : ∃ q ∈ firstSpellings ps, q.Same p := by
  induction ps with
  | nil => cases hp
  | cons r ps ih =>
      by_cases hr : r.Same p
      · exact ⟨r, List.mem_cons_self .., hr⟩
      · rcases List.mem_cons.mp hp with rfl | hp
        · exact absurd (ModulePath.same_refl _) hr
        · obtain ⟨q, hq, hsame⟩ := ih hp
          have hqr : ¬q.Same r := fun hqr => hr (hqr.symm.trans hsame)
          have hkept : q ∈ (firstSpellings ps).filter fun q => ¬q.Same r :=
            List.mem_filter.mpr ⟨hq, by simpa using hqr⟩
          exact ⟨q, List.mem_cons_of_mem _ hkept, hsame⟩

/-- Paths are left out in all their spellings or in none. -/
theorem firstSpellings_filter {f : ModulePath → Bool} (hf : ∀ p q, p.Same q → f p = f q) :
    firstSpellings (ps.filter f) = (firstSpellings ps).filter f := by
  induction ps with
  | nil => rfl
  | cons p ps ih =>
      by_cases hp : f p
      · rw [List.filter_cons_of_pos hp, firstSpellings, firstSpellings, ih,
          List.filter_cons_of_pos hp, List.filter_filter, List.filter_filter]
        congr 2
        funext q
        exact Bool.and_comm _ _
      · rw [List.filter_cons_of_neg hp, ih, firstSpellings, List.filter_cons_of_neg hp,
          List.filter_filter]
        apply List.filter_congr
        intro q _
        by_cases hq : q.Same p
        · simp [hf q p hq, hp]
        · simp [hq]

theorem commandsFor_cons (c : PlacedCommand) (cs : List PlacedCommand) (path : ModulePath) :
    commandsFor (c :: cs) path =
      if c.path.Same path then c.command :: commandsFor cs path else commandsFor cs path := by
  by_cases h : c.path.Same path
  · simp [commandsFor, h]
  · simp [commandsFor, h]

/-- Commands for one file do not depend on those for others. -/
theorem commandsFor_filter {keep : PlacedCommand → Bool}
    (h : ∀ c : PlacedCommand, c.path.Same path → keep c = true) :
    commandsFor (cs.filter keep) path = commandsFor cs path := by
  simp only [commandsFor, List.filter_filter]
  congr 1
  apply List.filter_congr
  intro c _
  by_cases hc : c.path.Same path
  · simp [hc, h c hc]
  · simp [hc]

theorem commandsFor_filter_of_not_same (h : ¬p.Same path) :
    commandsFor (cs.filter fun c => ¬c.path.Same p) path = commandsFor cs path := by
  apply commandsFor_filter
  intro c hc
  have hnot : ¬c.path.Same p := fun hcp => h (hcp.symm.trans hc)
  simpa using hnot

/-- No command is left for a file once the commands for it are taken away. -/
theorem commandsFor_filter_of_same (h : p.Same path) :
    commandsFor (cs.filter fun c => ¬c.path.Same p) path = [] := by
  rw [commandsFor, List.filter_filter, List.map_eq_nil_iff, List.filter_eq_nil_iff]
  intro c _
  by_cases hc : c.path.Same path
  · have hcp : c.path.Same p := hc.trans h.symm
    simp [hcp]
  · simp [hc]

/-- A path of some command has commands. -/
theorem commandsFor_ne_nil (hp : path ∈ cs.map (·.path)) : commandsFor cs path ≠ [] := by
  obtain ⟨c, hc, rfl⟩ := List.mem_map.mp hp
  apply List.ne_nil_of_mem (a := c.command)
  exact List.mem_map_of_mem (List.mem_filter.mpr ⟨hc, by simp⟩)

/-- A command with its file, whatever the spelling of the path. -/
def PlacedCommand.inFile (c : PlacedCommand) : List PathComponent × Command :=
  (c.path.components, c.command)

namespace EditPlan

/-- Add commands one after another. -/
def pushAll (plan : EditPlan) (cs : List PlacedCommand) : EditPlan :=
  cs.foldl (fun plan c => plan.push c.path c.command) plan

theorem pushAll_cons (plan : EditPlan) (c : PlacedCommand) (cs : List PlacedCommand) :
    plan.pushAll (c :: cs) = (plan.push c.path c.command).pushAll cs := rfl

theorem size_pushAll (plan : EditPlan) (cs : List PlacedCommand) :
    (plan.pushAll cs).size = plan.size + cs.length := by
  induction cs generalizing plan with
  | nil => rfl
  | cons c cs ih =>
      rw [pushAll_cons, ih, size_push, List.length_cons]
      omega

theorem size_ofList (cs : List PlacedCommand) : (ofList cs).size = cs.length := by
  have h := size_pushAll ∅ cs
  rwa [size_empty, Nat.zero_add] at h

/-- The first entry of a plan takes the commands for its path, and the rest gets the others. -/
theorem files_pushAll_cons (f : FileEdits) (fs : List FileEdits) (cs : List PlacedCommand) :
    (pushAll ⟨f :: fs⟩ cs).files =
      { f with commands := f.commands ++ commandsFor cs f.path } ::
        (pushAll ⟨fs⟩ (cs.filter fun c => ¬c.path.Same f.path)).files := by
  induction cs generalizing f fs with
  | nil => simp [pushAll, commandsFor]
  | cons c cs ih =>
      by_cases hc : c.path.Same f.path
      · have hf : f.path.Same c.path := hc.symm
        rw [pushAll_cons, push, pushInto, if_pos hf, ih, commandsFor_cons, if_pos hc,
          List.filter_cons_of_neg (by simp [hc]), List.append_assoc]
        rfl
      · have hf : ¬f.path.Same c.path := fun hf => hc hf.symm
        rw [pushAll_cons, push, pushInto, if_neg hf, ih, commandsFor_cons, if_neg hc,
          List.filter_cons_of_pos (by simp [hc])]
        rfl

/-- Grouped commands: a file for each path, in the order and the spellings in which the paths come
first, with the commands for the path in their order. -/
theorem files_ofList (cs : List PlacedCommand) :
    (ofList cs).files =
      (firstSpellings (cs.map (·.path))).map fun path => ⟨path, commandsFor cs path⟩ :=
  match cs with
  | [] => rfl
  | c :: cs => by
      have ih := files_ofList (cs.filter fun c' => ¬c'.path.Same c.path)
      have hspellings : firstSpellings ((cs.filter fun c' => ¬c'.path.Same c.path).map (·.path)) =
          (firstSpellings (cs.map (·.path))).filter fun q => ¬q.Same c.path := by
        have hsame : ∀ p q : ModulePath, p.Same q →
            decide (¬p.Same c.path) = decide (¬q.Same c.path) := by
          intro p q hpq
          have hiff : p.Same c.path ↔ q.Same c.path := ⟨hpq.symm.trans, hpq.trans⟩
          simp only [hiff]
        rw [← firstSpellings_filter hsame, List.filter_map]
        rfl
      calc
        (ofList (c :: cs)).files = (pushAll ⟨[⟨c.path, [c.command]⟩]⟩ cs).files := rfl
        _ = ⟨c.path, c.command :: commandsFor cs c.path⟩ ::
              (ofList (cs.filter fun c' => ¬c'.path.Same c.path)).files :=
            files_pushAll_cons _ _ _
        _ = ⟨c.path, c.command :: commandsFor cs c.path⟩ ::
              ((firstSpellings (cs.map (·.path))).filter fun q => ¬q.Same c.path).map
                fun path => ⟨path, commandsFor (c :: cs) path⟩ := by
            rw [ih, hspellings]
            congr 1
            apply List.map_congr_left
            intro q hq
            have hqc : ¬q.Same c.path := by simpa using (List.mem_filter.mp hq).2
            have hcq : ¬c.path.Same q := fun h => hqc h.symm
            rw [commandsFor_filter_of_not_same hcq, commandsFor_cons, if_neg hcq]
        _ = (firstSpellings ((c :: cs).map (·.path))).map
              fun path => ⟨path, commandsFor (c :: cs) path⟩ := by
            rw [List.map_cons, firstSpellings, List.map_cons, commandsFor_cons,
              if_pos (ModulePath.same_refl _)]
  termination_by cs.length
  decreasing_by exact Nat.lt_succ_of_le (List.length_filter_le ..)

theorem perm_toList_push (plan : EditPlan) (c : PlacedCommand) :
    ((plan.push c.path c.command).toList.map (·.inFile)).Perm
      (plan.toList.map (·.inFile) ++ [c.inFile]) := by
  obtain ⟨files⟩ := plan
  induction files with
  | nil => exact List.Perm.refl _
  | cons f fs ih =>
      simp only [push, toList, pushInto, List.flatMap_cons, List.map_append] at ih ⊢
      split
      · rename_i hf
        have hc : (⟨f.path, c.command⟩ : PlacedCommand).inFile = c.inFile :=
          Prod.ext hf rfl
        simp only [List.flatMap_cons, List.map_append, List.map_cons, List.map_nil, hc,
          List.append_assoc]
        exact List.perm_append_comm.append_left _
      · simp only [List.flatMap_cons, List.map_append, List.append_assoc]
        exact ih.append_left _

/-- Grouping rearranges commands and changes the spellings of their paths, and no more. -/
theorem perm_toList_ofList (cs : List PlacedCommand) :
    ((ofList cs).toList.map (·.inFile)).Perm (cs.map (·.inFile)) := by
  have hpush : ∀ plan : EditPlan, ((plan.pushAll cs).toList.map (·.inFile)).Perm
      (plan.toList.map (·.inFile) ++ cs.map (·.inFile)) := by
    induction cs with
    | nil => simp [pushAll]
    | cons c cs ih =>
        intro plan
        refine (ih _).trans ?_
        rw [List.map_cons, List.append_cons]
        exact (perm_toList_push plan c).append_right _
  exact hpush ∅

theorem mem_toList_of_mem_files {plan : EditPlan} {g : FileEdits} (hg : g ∈ plan.files)
    {c : Command} (hc : c ∈ g.commands) : ⟨g.path, c⟩ ∈ plan.toList :=
  List.mem_flatMap.mpr ⟨g, hg, List.mem_map_of_mem hc⟩

/-- Grouped commands share an entry if they are for one file. -/
theorem pairwise_files_ofList (cs : List PlacedCommand) :
    (ofList cs).files.Pairwise fun g h => ¬g.path.Same h.path := by
  rw [files_ofList, List.pairwise_map]
  exact pairwise_firstSpellings _

theorem commands_ne_nil_of_mem_files {cs : List PlacedCommand} {g : FileEdits}
    (hg : g ∈ (ofList cs).files) : g.commands ≠ [] := by
  rw [files_ofList] at hg
  obtain ⟨path, hpath, rfl⟩ := List.mem_map.mp hg
  exact commandsFor_ne_nil ((firstSpellings_sublist _).subset hpath)

theorem files_ofList_ne_nil {cs : List PlacedCommand} (h : cs ≠ []) : (ofList cs).files ≠ [] := by
  obtain ⟨c, hc⟩ := List.exists_mem_of_ne_nil cs h
  obtain ⟨path, hpath, -⟩ := exists_mem_firstSpellings (List.mem_map_of_mem (f := (·.path)) hc)
  rw [files_ofList]
  exact List.ne_nil_of_mem (List.mem_map_of_mem hpath)

end EditPlan

end ImportRepair
