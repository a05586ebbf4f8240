import Mathlib.Data.List.Perm.Subperm
import Mathlib.Data.List.Sigma
import ImportRepair.Proofs.ByteOrder
import ImportRepair.Proofs.CommandTargets
import ImportRepair.Proofs.Grouping
import ImportRepair.Proofs.Outcome

/-!
# Commands of a repair

Every command of a repair is made for one proxy. No two commands do the same to one proxy, and what
has to go is removed wherever it is imported (`Usage.Assigned`). The bounds on the numbers of
additions and removals and the repositories that they name follow from this, and
`repair_wellFormed` puts them together with the form of the plan.

## Implementation notes

Commands are first assigned to positions in the order in which they are made. Grouping rearranges
them and changes the spellings of their paths, and `Usage.Assigned` depends on neither.
-/

namespace ImportRepair

/-- A command together with the position of the proxy that it is made for. -/
structure Assignment where
  placed : PlacedCommand
  position : Nat
  deriving DecidableEq

namespace Assignment

/-- What the command does. -/
def action (a : Assignment) : Action := a.placed.command.action

/-- The repositories that the command names. -/
def repos (a : Assignment) : RepoSet := a.placed.command.repos

/-- The command with its file, whatever the spelling, and with its position. -/
def inFile (a : Assignment) : (List PathComponent × Command) × Nat := (a.placed.inFile, a.position)

end Assignment

/-- The positions for which there are commands of an action. -/
def positionsOf (as : List Assignment) (x : Action) : List Nat :=
  (as.filter fun a => a.action = x).map (·.position)

theorem length_eq_positionsOf (as : List Assignment) :
    as.length = (positionsOf as .add).length + (positionsOf as .remove).length := by
  induction as with
  | nil => rfl
  | cons a as ih =>
      simp only [positionsOf, List.length_map, List.length_cons] at ih ⊢
      cases ha : a.action with
      | add =>
          rw [List.filter_cons_of_pos (by simp [ha]), List.filter_cons_of_neg (by simp [ha]), ih,
            List.length_cons]
          omega
      | remove =>
          rw [List.filter_cons_of_neg (by simp [ha]), List.filter_cons_of_pos (by simp [ha]), ih,
            List.length_cons]
          omega

theorem length_positionsOf (as : List Assignment) (x : Action) :
    (positionsOf as x).length =
      ((as.map (·.placed)).filter fun c => c.command.action = x).length := by
  rw [List.filter_map, List.length_map, positionsOf, List.length_map]
  rfl

theorem nodup_positionsOf {as : List Assignment}
    (h : as.Pairwise fun a b => a.action = b.action → a.position ≠ b.position) (x : Action) :
    (positionsOf as x).Nodup := by
  rw [positionsOf, List.Nodup, List.pairwise_map, List.pairwise_filter]
  apply h.imp
  intro a b hab ha hb
  exact hab ((of_decide_eq_true ha).trans (of_decide_eq_true hb).symm)

theorem perm_positionsOf {as bs : List Assignment}
    (h : (bs.map (·.inFile)).Perm (as.map (·.inFile))) (x : Action) :
    (positionsOf bs x).Perm (positionsOf as x) := by
  have hpositions : ∀ l : List Assignment, positionsOf l x =
      ((l.map (·.inFile)).filter fun c => c.1.2.action = x).map (·.2) := by
    intro l
    rw [List.filter_map, List.map_map]
    rfl
  rw [hpositions, hpositions]
  exact (h.filter _).map _

namespace Usage

/-- The kind of the proxy at a position. -/
def kindAt? (u : Usage) (i : Nat) : Option DepKind := (u.proxies[i]?).map (·.kind)

/-- Commands for what has to change: each is made for a proxy, no two do the same to one proxy, and
every proxy that imports what has to go gets a removal. -/
structure Assigned (u : Usage) (e : PerKind RepoSet) (as : List Assignment) : Prop where
  madeFor : ∀ a ∈ as, u.MadeFor e a.placed a.position
  nodup : ∀ x, (positionsOf as x).Nodup
  removal : ∀ i p, u.proxies[i]? = some p → p.repos ∩ (u.missing e).remove.get p.kind ≠ ∅ →
    i ∈ positionsOf as .remove

variable {u : Usage} {e : PerKind RepoSet} {as bs : List Assignment} {a b : Assignment}
  {k : DepKind} {i : Nat}

theorem MadeFor.addition (h : u.MadeFor e a.placed a.position) (hadd : a.action = .add) :
    ∃ k, u.kindAt? a.position = some k ∧ u.firstPosition? k = some a.position ∧
      a.repos = (u.missing e).add.get k := by
  obtain ⟨p, hp, -, hmade⟩ := h
  have haction : a.placed.command.action = .add := hadd
  rw [haction] at hmade
  exact ⟨p.kind, by simp [kindAt?, hp], hmade⟩

theorem MadeFor.removal (h : u.MadeFor e a.placed a.position) (hremove : a.action = .remove) :
    ∃ p, u.proxies[a.position]? = some p ∧
      a.repos = p.repos ∩ (u.missing e).remove.get p.kind := by
  obtain ⟨p, hp, -, hmade⟩ := h
  have haction : a.placed.command.action = .remove := hremove
  rw [haction] at hmade
  exact ⟨p, hp, hmade⟩

namespace Assigned

/-- Additions are made for the first proxies of the two kinds. -/
theorem length_additions_le (h : u.Assigned e as) : (positionsOf as .add).length ≤ 2 := by
  have hsubset : positionsOf as .add ⊆
      (u.firstPosition? .regular).toList ++ (u.firstPosition? .dev).toList := by
    intro i hi
    obtain ⟨a, ha, rfl⟩ := List.mem_map.mp hi
    obtain ⟨hmem, hadd⟩ := List.mem_filter.mp ha
    obtain ⟨k, -, hfirst, -⟩ := (h.madeFor a hmem).addition (by simpa using hadd)
    cases k with
    | regular => simp [hfirst]
    | dev => simp [hfirst]
  have hlength := ((h.nodup .add).subperm hsubset).length_le
  rw [List.length_append] at hlength
  have hregular := (u.firstPosition? .regular).length_toList_le
  have hdev := (u.firstPosition? .dev).length_toList_le
  omega

theorem length_removals_le (h : u.Assigned e as) :
    (positionsOf as .remove).length ≤ u.proxies.length := by
  have hsubset : positionsOf as .remove ⊆ List.range u.proxies.length := by
    intro i hi
    obtain ⟨a, ha, rfl⟩ := List.mem_map.mp hi
    obtain ⟨p, hp, -⟩ := h.madeFor a (List.mem_filter.mp ha).1
    exact List.mem_range.mpr (List.getElem?_eq_some_iff.mp hp).1
  have hlength := ((h.nodup .remove).subperm hsubset).length_le
  rwa [List.length_range] at hlength

theorem length_le (h : u.Assigned e as) : as.length ≤ 2 + u.proxies.length := by
  rw [length_eq_positionsOf]
  exact Nat.add_le_add h.length_additions_le h.length_removals_le

/-- What is added to a kind is not removed from it. -/
theorem disjoint (h : u.Assigned e as) (ha : a ∈ as) (hadd : a.action = .add) (hb : b ∈ as)
    (hremove : b.action = .remove) (hkind : u.kindAt? a.position = u.kindAt? b.position)
    {n : String} (hn : n ∈ a.repos) : n ∉ b.repos := by
  obtain ⟨k, hk, -, hrepos⟩ := (h.madeFor a ha).addition hadd
  obtain ⟨p, hp, hrepos'⟩ := (h.madeFor b hb).removal hremove
  have hpk : p.kind = k := by
    rw [hk, kindAt?, hp] at hkind
    exact (Option.some.inj hkind).symm
  rw [hrepos, mem_missing_add] at hn
  rw [hrepos', RepoSet.mem_inter, mem_missing_remove, hpk]
  exact fun hremoved => hremoved.2.2 hn.1

/-- The removals from the proxies of a kind name what has to go of the kind, together and all of
it. -/
theorem mem_missing_remove_iff (h : u.Assigned e as) {n : String} :
    n ∈ (u.missing e).remove.get k ↔
      ∃ a ∈ as, a.action = .remove ∧ u.kindAt? a.position = some k ∧ n ∈ a.repos := by
  constructor
  · intro hn
    obtain ⟨p, hp, rfl, hrepo⟩ := mem_imported.mp (mem_missing_remove.mp hn).1
    obtain ⟨i, hi⟩ := List.mem_iff_getElem?.mp hp
    have hinter : n ∈ p.repos ∩ (u.missing e).remove.get p.kind := RepoSet.mem_inter.mpr ⟨hrepo, hn⟩
    obtain ⟨a, ha, rfl⟩ := List.mem_map.mp (h.removal i p hi (RepoSet.ne_empty_of_mem hinter))
    obtain ⟨hmem, hremove⟩ := List.mem_filter.mp ha
    have hremove : a.action = .remove := by simpa using hremove
    obtain ⟨q, hq, hrepos⟩ := (h.madeFor a hmem).removal hremove
    cases hi.symm.trans hq
    exact ⟨a, hmem, hremove, by simp [kindAt?, hi], hrepos ▸ hinter⟩
  · rintro ⟨a, ha, hremove, hk, hn⟩
    obtain ⟨p, hp, hrepos⟩ := (h.madeFor a ha).removal hremove
    have hpk : p.kind = k := by
      rw [kindAt?, hp] at hk
      exact Option.some.inj hk
    rw [hrepos, hpk] at hn
    exact (RepoSet.mem_inter.mp hn).2

/-- The order of commands and the spellings of their paths do not matter. -/
theorem of_perm (h : u.Assigned e as) (hperm : (bs.map (·.inFile)).Perm (as.map (·.inFile))) :
    u.Assigned e bs where
  madeFor := by
    intro b hb
    obtain ⟨a, ha, heq⟩ := List.mem_map.mp (hperm.mem_iff.mp (List.mem_map_of_mem hb))
    obtain ⟨hplaced, hposition⟩ := Prod.mk.inj heq
    obtain ⟨hpath, hcommand⟩ := Prod.mk.inj hplaced
    exact hposition ▸ (h.madeFor a ha).of_same hpath hcommand
  nodup := fun x => (perm_positionsOf hperm x).nodup_iff.mpr (h.nodup x)
  removal := fun i p hp hne => (perm_positionsOf hperm .remove).mem_iff.mpr (h.removal i p hp hne)

end Assigned

end Usage

namespace ImportDiff

variable {d : ImportDiff} {u : Usage} {k : DepKind} {a : Assignment}

/-- The addition for a kind, assigned to the first proxy of the kind. -/
def assignedAddition? (d : ImportDiff) (u : Usage) (k : DepKind) : Option Assignment :=
  (d.addition? u k).bind fun c => (u.firstPosition? k).map fun i => ⟨c, i⟩

/-- The removals, each assigned to its own proxy. -/
def assignedRemovals (d : ImportDiff) (u : Usage) : List Assignment :=
  u.proxies.zipIdx.filterMap fun p => (d.removal? p.1).map fun c => ⟨c, p.2⟩

/-- The commands for a difference, each assigned to the proxy that it is made for. -/
def assignments (d : ImportDiff) (u : Usage) : List Assignment :=
  (d.assignedAddition? u .regular).toList ++ (d.assignedAddition? u .dev).toList ++
    d.assignedRemovals u

theorem map_placed_assignedAddition? :
    (d.assignedAddition? u k).map (·.placed) = d.addition? u k := by
  cases hc : d.addition? u k with
  | none =>
      rw [assignedAddition?, hc]
      rfl
  | some c =>
      obtain ⟨p, hp, -, -⟩ := addition?_eq_some_iff.mp hc
      obtain ⟨i, hi, -⟩ := Usage.first?_eq_some_iff_firstPosition?.mp hp
      rw [assignedAddition?, hc, hi]
      rfl

theorem map_placed_assignments : (d.assignments u).map (·.placed) = d.sequence u := by
  have hremovals : (d.assignedRemovals u).map (·.placed) = u.proxies.filterMap d.removal? := by
    calc
      (d.assignedRemovals u).map (·.placed) =
          u.proxies.zipIdx.filterMap fun p => d.removal? p.1 := by
        simp only [assignedRemovals, List.map_filterMap, Option.map_map, Function.comp_def,
          Option.map_id']
      _ = (u.proxies.zipIdx.map Prod.fst).filterMap d.removal? := by
        rw [List.filterMap_map]
        rfl
      _ = u.proxies.filterMap d.removal? := by rw [List.zipIdx_map_fst]
  simp only [assignments, sequence, List.map_append, hremovals, ← Option.toList_map,
    map_placed_assignedAddition?]

theorem of_mem_assignedAddition? (ha : a ∈ d.assignedAddition? u k) :
    ∃ p, u.firstPosition? k = some a.position ∧ u.proxies[a.position]? = some p ∧ p.kind = k ∧
      a.placed = p.command .add (d.add.get k) := by
  obtain ⟨c, hc, hassigned⟩ := Option.bind_eq_some_iff.mp ha
  obtain ⟨i, hi, rfl⟩ := Option.map_eq_some_iff.mp hassigned
  obtain ⟨p, hp, -, rfl⟩ := addition?_eq_some_iff.mp hc
  obtain ⟨j, hj, hpj⟩ := Usage.first?_eq_some_iff_firstPosition?.mp hp
  cases hi.symm.trans hj
  exact ⟨p, hi, hpj, (Usage.mem_of_first? hp).2, rfl⟩

theorem mem_assignedRemovals :
    a ∈ d.assignedRemovals u ↔
      ∃ p, u.proxies[a.position]? = some p ∧ d.removal? p = some a.placed := by
  simp only [assignedRemovals, List.mem_filterMap, Option.map_eq_some_iff]
  constructor
  · rintro ⟨⟨p, i⟩, hp, c, hc, rfl⟩
    exact ⟨p, List.mem_zipIdx_iff_getElem?.mp hp, hc⟩
  · rintro ⟨p, hp, hc⟩
    exact ⟨⟨p, a.position⟩, List.mem_zipIdx_iff_getElem?.mpr hp, a.placed, hc, rfl⟩

theorem action_of_mem_assignedAddition? (ha : a ∈ d.assignedAddition? u k) : a.action = .add := by
  obtain ⟨p, -, -, -, hplaced⟩ := of_mem_assignedAddition? ha
  rw [Assignment.action, hplaced]
  rfl

theorem action_of_mem_assignedRemovals (ha : a ∈ d.assignedRemovals u) : a.action = .remove := by
  obtain ⟨p, -, hremoval⟩ := mem_assignedRemovals.mp ha
  rw [Assignment.action, (removal?_eq_some_iff.mp hremoval).2]
  rfl

theorem pairwise_assignedRemovals :
    (d.assignedRemovals u).Pairwise fun a b => a.action = b.action → a.position ≠ b.position := by
  have hproxies : u.proxies.zipIdx.Pairwise fun p q => p.2 ≠ q.2 :=
    List.pairwise_map.mp (List.nodup_zipIdx_map_snd _)
  rw [assignedRemovals, List.pairwise_filterMap]
  apply hproxies.imp
  intro p q hpq a ha b hb
  obtain ⟨c, -, rfl⟩ := Option.map_eq_some_iff.mp ha
  obtain ⟨c', -, rfl⟩ := Option.map_eq_some_iff.mp hb
  exact fun _ => hpq

/-- The additions are for proxies of different kinds, and the removals for proxies at different
positions. -/
theorem pairwise_assignments :
    (d.assignments u).Pairwise fun a b => a.action = b.action → a.position ≠ b.position := by
  have hadditions : ∀ k, (d.assignedAddition? u k).toList.Pairwise
      fun a b => a.action = b.action → a.position ≠ b.position := by
    intro k
    cases d.assignedAddition? u k <;> simp
  refine List.pairwise_append.mpr
    ⟨List.pairwise_append.mpr ⟨hadditions _, hadditions _, ?_⟩, pairwise_assignedRemovals, ?_⟩
  · intro a ha b hb _ hposition
    obtain ⟨p, -, hp, hregular, -⟩ := of_mem_assignedAddition? (Option.mem_toList.mp ha)
    obtain ⟨q, -, hq, hdev, -⟩ := of_mem_assignedAddition? (Option.mem_toList.mp hb)
    rw [← hposition] at hq
    cases hp.symm.trans hq
    cases hregular.symm.trans hdev
  · intro a ha b hb haction
    have hadd : a.action = .add := by
      simp only [List.mem_append, Option.mem_toList] at ha
      rcases ha with ha | ha
      · exact action_of_mem_assignedAddition? ha
      · exact action_of_mem_assignedAddition? ha
    rw [hadd, action_of_mem_assignedRemovals hb] at haction
    cases haction

/-- The commands for a difference are assigned as they are made. -/
theorem assigned_assignments (e : PerKind RepoSet) :
    u.Assigned e ((u.missing e).assignments u) where
  madeFor := by
    intro a ha
    have hmem : (∃ k, a ∈ (u.missing e).assignedAddition? u k) ∨
        a ∈ (u.missing e).assignedRemovals u := by
      simp only [assignments, List.mem_append, Option.mem_toList] at ha
      rcases ha with (ha | ha) | ha
      · exact Or.inl ⟨_, ha⟩
      · exact Or.inl ⟨_, ha⟩
      · exact Or.inr ha
    rcases hmem with ⟨k, ha⟩ | ha
    · obtain ⟨p, hfirst, hp, rfl, hplaced⟩ := of_mem_assignedAddition? ha
      rw [hplaced]
      exact ⟨p, hp, p.addresses_command _ _, hfirst, rfl⟩
    · obtain ⟨p, hp, hremoval⟩ := mem_assignedRemovals.mp ha
      rw [(removal?_eq_some_iff.mp hremoval).2]
      exact ⟨p, hp, p.addresses_command _ _, rfl⟩
  nodup := nodup_positionsOf pairwise_assignments
  removal := by
    intro i p hp hne
    have hmem : ⟨p.command .remove (p.repos ∩ (u.missing e).remove.get p.kind), i⟩ ∈
        (u.missing e).assignedRemovals u :=
      mem_assignedRemovals.mpr ⟨p, hp, removal?_eq_some_iff.mpr ⟨hne, rfl⟩⟩
    exact List.mem_map.mpr ⟨_, List.mem_filter.mpr ⟨List.mem_append_right _ hmem, rfl⟩, rfl⟩

end ImportDiff

/-- Commands under other spellings of their paths can be assigned to the same proxies. -/
theorem exists_respelled {cs : List PlacedCommand} {as : List Assignment}
    (h : List.Forall₂ (fun c a => c.inFile = a.placed.inFile) cs as) :
    ∃ bs : List Assignment, bs.map (·.placed) = cs ∧ bs.map (·.inFile) = as.map (·.inFile) := by
  induction h with
  | nil => exact ⟨[], rfl, rfl⟩
  | @cons c a cs as hc _ ih =>
      obtain ⟨bs, hcs, has⟩ := ih
      refine ⟨⟨c, a.position⟩ :: bs, by rw [List.map_cons, hcs], ?_⟩
      rw [List.map_cons, List.map_cons, has, Assignment.inFile, hc]
      rfl

/-- Grouped commands can be assigned to the proxies to which they are assigned before. -/
theorem exists_grouped (as : List Assignment) :
    ∃ bs : List Assignment, bs.map (·.placed) = (EditPlan.ofList (as.map (·.placed))).toList ∧
      (bs.map (·.inFile)).Perm (as.map (·.inFile)) := by
  have hperm := EditPlan.perm_toList_ofList (as.map (·.placed))
  rw [List.map_map] at hperm
  have hsame : List.Forall₂ (fun c a => c = a.placed.inFile)
      (as.map ((·.inFile) ∘ (·.placed))) as :=
    List.forall₂_map_left_iff.mpr (List.forall₂_same.mpr fun _ _ => rfl)
  obtain ⟨as', hforall, has'⟩ := List.perm_comp_forall₂ hperm hsame
  obtain ⟨bs, hplaced, hinFile⟩ := exists_respelled (List.forall₂_map_left_iff.mp hforall)
  exact ⟨bs, hplaced, hinFile ▸ has'.map _⟩

/-- Assigned commands stay assigned when they are grouped. -/
theorem Usage.Assigned.exists_ofList {u : Usage} {e : PerKind RepoSet} {as : List Assignment}
    (h : u.Assigned e as) :
    ∃ bs, bs.map (·.placed) = (EditPlan.ofList (as.map (·.placed))).toList ∧ u.Assigned e bs := by
  obtain ⟨bs, hplaced, hperm⟩ := exists_grouped as
  exact ⟨bs, hplaced, h.of_perm hperm⟩

namespace Declaration

variable {d : Declaration} {generated : RepoSet} {u : Usage} {f : Repair}

/-- Something is commanded by a repair. -/
theorem sequence_ne_nil {e : PerKind RepoSet} (he : d.expected generated = .ok (some e))
    (hf : d.repair? u generated = .ok (some f)) : (u.missing e).sequence u ≠ [] := by
  obtain ⟨hcovers, hm, -⟩ := of_repair?_eq_some he hf
  intro hnil
  apply hm
  rw [Usage.missing_isEmpty_iff hcovers]
  intro p hp a n hwants
  obtain ⟨c, hc, -⟩ := hwants.asked_sequence hp
  rw [hnil] at hc
  cases hc

/-- The form of a repair. It has a file; files differ as paths and have commands; a command names
repositories, each once and in the order of their bytes, and addresses a proxy. The commands are made
for proxies: at most two additions, and at most one removal for each proxy. What is added to a kind
is not removed from a proxy of the kind, and the removals from the proxies of a kind name what has to
go of the kind, together and all of it. -/
theorem repair_wellFormed (hf : d.repair? u generated = .ok (some f)) :
    f.commands.files ≠ [] ∧
      f.commands.files.Pairwise (fun g h => ¬g.path.Same h.path) ∧
      (∀ g ∈ f.commands.files, g.commands ≠ [] ∧ ∀ c ∈ g.commands,
        c.repos ≠ ∅ ∧ c.repos.toList.Pairwise (fun m n => utf8 m < utf8 n) ∧
          ∃ p ∈ u.proxies, p.label = c.label ∧ p.path.Same g.path) ∧
      (f.commands.toList.filter fun c => c.command.action = .add).length ≤ 2 ∧
      f.commands.size ≤ 2 + u.proxies.length ∧
      ∃ e made, d.expected generated = .ok (some e) ∧ made.map (·.placed) = f.commands.toList ∧
        (∀ a ∈ made, u.MadeFor e a.placed a.position) ∧ (positionsOf made .remove).Nodup ∧
        (∀ a ∈ made, ∀ b ∈ made, a.action = .add → b.action = .remove →
          u.kindAt? a.position = u.kindAt? b.position → ∀ n ∈ a.repos, n ∉ b.repos) ∧
        ∀ k n, n ∈ (u.missing e).remove.get k ↔
          ∃ b ∈ made, b.action = .remove ∧ u.kindAt? b.position = some k ∧ n ∈ b.repos := by
  obtain ⟨e, he, -, -⟩ := exists_repair_iff.mp ⟨f, hf⟩
  have hcommands := (of_repair?_eq_some he hf).2.2
  obtain ⟨made, hplaced, hmade⟩ :=
    (ImportDiff.assigned_assignments (u := u) e).exists_ofList
  rw [ImportDiff.map_placed_assignments, ← hcommands] at hplaced
  have hsize : f.commands.size = made.length := by
    rw [← EditPlan.length_toList, ← hplaced, List.length_map]
  refine ⟨?_, ?_, ?_, ?_, hsize ▸ hmade.length_le, e, made, he, hplaced, hmade.madeFor,
    hmade.nodup .remove, ?_, fun k n => hmade.mem_missing_remove_iff⟩
  · rw [hcommands]
    exact EditPlan.files_ofList_ne_nil (sequence_ne_nil he hf)
  · rw [hcommands]
    exact EditPlan.pairwise_files_ofList _
  · intro g hg
    refine ⟨EditPlan.commands_ne_nil_of_mem_files (hcommands ▸ hg), ?_⟩
    intro c hc
    have hmem : ⟨g.path, c⟩ ∈ f.commands.toList := EditPlan.mem_toList_of_mem_files hg hc
    refine ⟨?_, c.repos.utf8_sorted, ?_⟩
    · rw [hcommands] at hmem
      obtain ⟨pc, hpc, -, hcommand⟩ := EditPlan.exists_mem_of_mem_ofList hmem
      obtain ⟨-, -, -, hne, -⟩ := Usage.exists_wants_of_mem_sequence hpc
      rw [hcommand] at hne
      exact hne
    · rw [← hplaced] at hmem
      obtain ⟨a, ha, hac⟩ := List.mem_map.mp hmem
      obtain ⟨p, hp, haddr, -⟩ := hmade.madeFor a ha
      rw [hac] at haddr
      exact ⟨p, List.mem_of_getElem? hp, haddr.2, haddr.1⟩
  · rw [← hplaced, ← length_positionsOf]
    exact hmade.length_additions_le
  · intro a ha b hb hadd hremove hkind n hn
    exact hmade.disjoint ha hadd hb hremove hkind hn

/-- Six commands are as many as there can be for four proxies. -/
theorem repair_wellFormed_of_mixedUsage :
    ∃ f, mixedDeclaration.repair? mixedUsage mixedGenerated = .ok (some f) ∧
      f.commands.size = 2 + mixedUsage.proxies.length ∧
      (∀ g ∈ f.commands.files, g.commands ≠ []) ∧
      ∃ made : List Assignment, made.map (·.placed) = f.commands.toList ∧
        (positionsOf made .remove).length = 4 ∧ (positionsOf made .remove).Nodup := by
  obtain ⟨f, hf, hcommands⟩ := exists_repair_of_mixedUsage
  obtain ⟨-, -, hfiles, -, -, e, made, -, hplaced, -, hnodup, -, -⟩ := repair_wellFormed hf
  have hsize : f.commands.size = 6 := by
    rw [hcommands]
    decide
  have hremovals : (positionsOf made .remove).length = 4 := by
    rw [length_positionsOf, hplaced, hcommands]
    decide
  exact ⟨f, hf, hsize, fun g hg => (hfiles g hg).1, made, hplaced, hremovals, hnodup⟩

end Declaration

end ImportRepair
