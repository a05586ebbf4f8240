import ImportRepair.Proofs.Classification
import ImportRepair.Proofs.Execution
import ImportRepair.Proofs.Grouping

/-!
# What a repair asks for

The commands of a repair ask the first proxy of a kind for the expected imports that no proxy of the
kind has, and every proxy to drop the imports that are not expected of its kind. `Usage.Wants` says
so without commands, and `asked_repair_iff` says that a repair asks for that and for nothing else.

## Implementation notes

Grouping commands by files changes their order and the spellings of their paths. `Placed` looks at
neither, and is therefore the same before and after grouping.
-/

namespace ImportRepair

/-- A command is placed in the file of a path, whatever the spelling. -/
def Placed (cs : List PlacedCommand) (path : ModulePath) (c : Command) : Prop :=
  ∃ pc ∈ cs, pc.path.Same path ∧ pc.command = c

theorem placed_iff {cs : List PlacedCommand} {path : ModulePath} {c : Command} :
    Placed cs path c ↔ (path.components, c) ∈ cs.map (·.inFile) := by
  simp only [Placed, ModulePath.Same, PlacedCommand.inFile, List.mem_map, Prod.mk.injEq]

theorem Proxy.asked_iff_placed {p : Proxy} {cs : List PlacedCommand} {a : Action} {n : String} :
    p.Asked cs a n ↔
      ∃ c, Placed cs p.path c ∧ p.label = c.label ∧ c.action = a ∧ n ∈ c.repos := by
  constructor
  · rintro ⟨pc, hpc, ⟨hpath, hlabel⟩, hact, hn⟩
    exact ⟨pc.command, ⟨pc, hpc, hpath.symm, rfl⟩, hlabel, hact, hn⟩
  · rintro ⟨_, ⟨pc, hpc, hpath, rfl⟩, hlabel, hact, hn⟩
    exact ⟨pc, hpc, ⟨hpath.symm, hlabel⟩, hact, hn⟩

namespace EditPlan

/-- Grouping keeps every command in its file. -/
theorem placed_toList_ofList {cs : List PlacedCommand} {path : ModulePath} {c : Command} :
    Placed (ofList cs).toList path c ↔ Placed cs path c := by
  rw [placed_iff, placed_iff, (perm_toList_ofList cs).mem_iff]

/-- Grouped commands are those that were grouped, under a spelling of their path. -/
theorem exists_mem_of_mem_ofList {cs : List PlacedCommand} {c : PlacedCommand}
    (hc : c ∈ (ofList cs).toList) : ∃ pc ∈ cs, pc.path.Same c.path ∧ pc.command = c.command :=
  placed_toList_ofList.mp ⟨c, hc, ModulePath.same_refl _, rfl⟩

theorem exists_mem_ofList_of_mem {cs : List PlacedCommand} {pc : PlacedCommand} (hpc : pc ∈ cs) :
    ∃ c ∈ (ofList cs).toList, c.path.Same pc.path ∧ c.command = pc.command :=
  placed_toList_ofList.mpr ⟨pc, hpc, ModulePath.same_refl _, rfl⟩

end EditPlan

/-- The first proxy of a kind, which gets the additions of the kind. -/
def Usage.first? (u : Usage) (k : DepKind) : Option Proxy := u.proxies.find? fun p => p.kind == k

theorem Usage.mem_of_first? {u : Usage} {k : DepKind} {p : Proxy} (h : u.first? k = some p) :
    p ∈ u.proxies ∧ p.kind = k :=
  ⟨List.mem_of_find?_eq_some h, by simpa using List.find?_some h⟩

theorem Usage.exists_first? {u : Usage} {k : DepKind} (h : u.has k = true) :
    ∃ p, u.first? k = some p := by
  obtain ⟨p, hp, hk⟩ := List.any_eq_true.mp h
  cases hf : u.first? k with
  | none => exact absurd hk (List.find?_eq_none.mp hf p hp)
  | some q => exact ⟨q, rfl⟩

/-- An expected repository has a proxy to which it could be added. -/
theorem Usage.Covers.exists_first? {u : Usage} {e : PerKind RepoSet} (hc : u.Covers e)
    {k : DepKind} {n : String} (hn : n ∈ e.get k) : ∃ p, u.first? k = some p :=
  Usage.exists_first? ((hc k).resolve_left (RepoSet.ne_empty_of_mem hn))

namespace Usage

variable {u : Usage} {k k' : DepKind} {change : Proxy → Proxy}

theorem has_map (hkind : ∀ p, (change p).kind = k ↔ p.kind = k') :
    ({ u with proxies := u.proxies.map change } : Usage).has k = u.has k' := by
  simp only [has, List.any_map]
  congr 1
  funext p
  rw [Function.comp_apply, Bool.eq_iff_iff, beq_iff_eq, beq_iff_eq, hkind]

theorem first?_map (hkind : ∀ p, (change p).kind = k ↔ p.kind = k') :
    ({ u with proxies := u.proxies.map change } : Usage).first? k = (u.first? k').map change := by
  simp only [first?, List.find?_map]
  congr 2
  funext p
  rw [Function.comp_apply, Bool.eq_iff_iff, beq_iff_eq, beq_iff_eq, hkind]

theorem imported_map (hkind : ∀ p, (change p).kind = k ↔ p.kind = k')
    (hrepos : ∀ p, (change p).repos = p.repos) :
    ({ u with proxies := u.proxies.map change } : Usage).imported.get k = u.imported.get k' := by
  ext n
  simp only [mem_imported, List.mem_map, exists_exists_and_eq_and, hkind, hrepos]

end Usage

namespace ImportDiff

/-- The command that adds the missing imports of a kind at the first proxy of the kind. -/
def addition? (d : ImportDiff) (u : Usage) (k : DepKind) : Option PlacedCommand :=
  if d.add.get k = ∅ then none else (u.first? k).map fun p => p.command .add (d.add.get k)

/-- The commands for a difference in the order in which they are made. -/
def sequence (d : ImportDiff) (u : Usage) : List PlacedCommand :=
  (d.addition? u .regular).toList ++ (d.addition? u .dev).toList ++ u.proxies.filterMap d.removal?

theorem additions_eq_ok {d : ImportDiff} {u : Usage} {k : DepKind}
    (h : d.add.get k = ∅ ∨ u.has k = true) :
    d.additions u.proxies k = .ok (d.addition? u k).toList := by
  simp only [additions, addition?]
  split
  · rfl
  · rename_i hne
    obtain ⟨p, hp⟩ := Usage.exists_first? (h.resolve_left hne)
    have hfind : u.proxies.find? (fun p => p.kind == k) = some p := hp
    simp only [hp, hfind, Option.map_some, Option.toList_some]

/-- Commands are made if there is a proxy of every kind that gets additions. -/
theorem commands_eq_ok {d : ImportDiff} {u : Usage}
    (h : ∀ k, d.add.get k = ∅ ∨ u.has k = true) : d.commands u.proxies = .ok (d.sequence u) := by
  simp only [commands, additions_eq_ok (h .regular), additions_eq_ok (h .dev)]
  rfl

theorem addition?_eq_some_iff {d : ImportDiff} {u : Usage} {k : DepKind} {c : PlacedCommand} :
    d.addition? u k = some c ↔
      ∃ p, u.first? k = some p ∧ d.add.get k ≠ ∅ ∧ c = p.command .add (d.add.get k) := by
  by_cases hk : d.add.get k = ∅
  · simp [addition?, hk]
  · simp only [addition?, if_neg hk, Option.map_eq_some_iff]
    constructor
    · rintro ⟨p, hp, rfl⟩
      exact ⟨p, hp, hk, rfl⟩
    · rintro ⟨p, hp, -, rfl⟩
      exact ⟨p, hp, rfl⟩

theorem removal?_eq_some_iff {d : ImportDiff} {p : Proxy} {c : PlacedCommand} :
    d.removal? p = some c ↔ p.repos ∩ d.remove.get p.kind ≠ ∅ ∧
      c = p.command .remove (p.repos ∩ d.remove.get p.kind) := by
  by_cases hp : p.repos ∩ d.remove.get p.kind = ∅
  · simp [removal?, hp]
  · simp [removal?, hp, eq_comm]

theorem mem_sequence {d : ImportDiff} {u : Usage} {c : PlacedCommand} :
    c ∈ d.sequence u ↔
      (∃ k p, u.first? k = some p ∧ d.add.get k ≠ ∅ ∧ c = p.command .add (d.add.get k)) ∨
        ∃ p ∈ u.proxies, p.repos ∩ d.remove.get p.kind ≠ ∅ ∧
          c = p.command .remove (p.repos ∩ d.remove.get p.kind) := by
  simp only [sequence, List.mem_append, Option.mem_toList, List.mem_filterMap,
    addition?_eq_some_iff, removal?_eq_some_iff]
  constructor
  · rintro ((h | h) | h)
    · exact Or.inl ⟨.regular, h⟩
    · exact Or.inl ⟨.dev, h⟩
    · exact Or.inr h
  · rintro (⟨_ | _, h⟩ | h)
    · exact Or.inl (Or.inl h)
    · exact Or.inl (Or.inr h)
    · exact Or.inr h

end ImportDiff

namespace Usage

variable {u : Usage} {e : PerKind RepoSet}

/-- What has to change in a usage for its imports to become the expected ones. -/
def missing (u : Usage) (e : PerKind RepoSet) : ImportDiff := .between e u.imported

/-- What a proxy has to add and to drop for the imports of a usage to become the expected ones. -/
def Wants (u : Usage) (e : PerKind RepoSet) (p : Proxy) : Action → String → Prop
  | .add, n => u.first? p.kind = some p ∧ n ∈ e.get p.kind ∧ n ∉ u.imported.get p.kind
  | .remove, n => n ∈ p.repos ∧ n ∉ e.get p.kind

theorem DistinctAddresses.eq_of_sameAddress (h : u.DistinctAddresses) {p q : Proxy}
    (hp : p ∈ u.proxies) (hq : q ∈ u.proxies) (hs : p.SameAddress q) : p = q := by
  obtain ⟨i, hi, rfl⟩ := List.mem_iff_getElem.mp hp
  obtain ⟨j, hj, rfl⟩ := List.mem_iff_getElem.mp hq
  have hpairwise := List.pairwise_iff_getElem.mp h
  rcases Nat.lt_trichotomy i j with hij | rfl | hji
  · exact absurd hs (hpairwise i j hi hj hij)
  · rfl
  · exact absurd hs.symm (hpairwise j i hj hi hji)

theorem mem_missing_add {k : DepKind} {n : String} :
    n ∈ (u.missing e).add.get k ↔ n ∈ e.get k ∧ n ∉ u.imported.get k := by
  simp only [missing, ImportDiff.between, PerKind.get_of, RepoSet.mem_sdiff]

theorem mem_missing_remove {k : DepKind} {n : String} :
    n ∈ (u.missing e).remove.get k ↔ n ∈ u.imported.get k ∧ n ∉ e.get k := by
  simp only [missing, ImportDiff.between, PerKind.get_of, RepoSet.mem_sdiff]

/-- Each command for a difference is made for a proxy and names what the proxy has to change. -/
theorem exists_wants_of_mem_sequence {c : PlacedCommand} (hc : c ∈ (u.missing e).sequence u) :
    ∃ p ∈ u.proxies, c.Addresses p ∧ c.command.repos ≠ ∅ ∧
      ∀ n ∈ c.command.repos, u.Wants e p c.command.action n := by
  rcases ImportDiff.mem_sequence.mp hc with ⟨k, p, hp, hne, rfl⟩ | ⟨p, hp, hne, rfl⟩
  · obtain ⟨hmem, rfl⟩ := mem_of_first? hp
    exact ⟨p, hmem, p.addresses_command _ _, hne, fun n hn => ⟨hp, mem_missing_add.mp hn⟩⟩
  · refine ⟨p, hp, p.addresses_command _ _, hne, fun n hn => ?_⟩
    obtain ⟨hrepo, hremove⟩ := RepoSet.mem_inter.mp hn
    exact ⟨hrepo, (mem_missing_remove.mp hremove).2⟩

/-- What a proxy has to change is asked of it. -/
theorem Wants.asked_sequence {p : Proxy} {a : Action} {n : String} (hp : p ∈ u.proxies)
    (h : u.Wants e p a n) : p.Asked ((u.missing e).sequence u) a n := by
  cases a with
  | add =>
      obtain ⟨hfirst, hn⟩ := h
      have hadd : n ∈ (u.missing e).add.get p.kind := mem_missing_add.mpr hn
      have hmem := ImportDiff.mem_sequence.mpr
        (Or.inl ⟨_, p, hfirst, RepoSet.ne_empty_of_mem hadd, rfl⟩)
      exact ⟨_, hmem, p.addresses_command _ _, rfl, hadd⟩
  | remove =>
      obtain ⟨hrepo, hn⟩ := h
      have himported : n ∈ u.imported.get p.kind := mem_imported.mpr ⟨p, hp, rfl, hrepo⟩
      have hremove : n ∈ p.repos ∩ (u.missing e).remove.get p.kind :=
        RepoSet.mem_inter.mpr ⟨hrepo, mem_missing_remove.mpr ⟨himported, hn⟩⟩
      have hmem := ImportDiff.mem_sequence.mpr
        (Or.inr ⟨p, hp, RepoSet.ne_empty_of_mem hremove, rfl⟩)
      exact ⟨_, hmem, p.addresses_command _ _, rfl, hremove⟩

/-- Where addresses are distinct, the commands for a difference ask each proxy for what it has to
change, and for nothing else. -/
theorem asked_sequence_iff (hd : u.DistinctAddresses) {p : Proxy} (hp : p ∈ u.proxies)
    {a : Action} {n : String} :
    p.Asked ((u.missing e).sequence u) a n ↔ u.Wants e p a n := by
  constructor
  · rintro ⟨c, hc, haddr, rfl, hn⟩
    obtain ⟨q, hq, hqaddr, -, hwants⟩ := exists_wants_of_mem_sequence hc
    rw [hd.eq_of_sameAddress hp hq (Proxy.sameAddress_of_addresses haddr hqaddr)]
    exact hwants n hn
  · exact Wants.asked_sequence hp

/-- Nothing has to change just when no proxy has anything to add or to drop. -/
theorem missing_isEmpty_iff (hc : u.Covers e) :
    (u.missing e).isEmpty = true ↔ ∀ p ∈ u.proxies, ∀ a n, ¬u.Wants e p a n := by
  rw [ImportDiff.isEmpty_iff]
  constructor
  · intro h p hp a n hw
    cases a with
    | add => exact RepoSet.ne_empty_of_mem (mem_missing_add.mpr hw.2) (h p.kind).1
    | remove =>
        have himported : n ∈ u.imported.get p.kind := mem_imported.mpr ⟨p, hp, rfl, hw.1⟩
        exact RepoSet.ne_empty_of_mem (mem_missing_remove.mpr ⟨himported, hw.2⟩) (h p.kind).2
  · intro h k
    constructor
    · apply RepoSet.eq_empty_iff.mpr
      intro n hn
      have hadd := mem_missing_add.mp hn
      obtain ⟨p, hp⟩ := hc.exists_first? hadd.1
      obtain ⟨hmem, rfl⟩ := mem_of_first? hp
      exact h p hmem .add n ⟨hp, hadd⟩
    · apply RepoSet.eq_empty_iff.mpr
      intro n hn
      obtain ⟨himported, he⟩ := mem_missing_remove.mp hn
      obtain ⟨p, hp, rfl, hrepo⟩ := mem_imported.mp himported
      exact h p hp .remove n ⟨hrepo, he⟩

theorem Covers.has_of_missing (hc : u.Covers e) (k : DepKind) :
    (u.missing e).add.get k = ∅ ∨ u.has k = true := by
  rcases hc k with hk | hk
  · left
    apply RepoSet.eq_empty_iff.mpr
    intro n hn
    exact RepoSet.ne_empty_of_mem (mem_missing_add.mp hn).1 hk
  · exact Or.inr hk

end Usage

/-- The repair that makes up for what a reconciliation finds, with its warning attached to a
place. -/
def Reconciliation.repairAt (r : Reconciliation) (place : Location) : Repair where
  schema := Repair.currentSchema
  commands := EditPlan.ofList ((r.usage.missing r.expected).sequence r.usage)
  usage := r.usage
  warning := ⟨.warning, place, r.message⟩

/-- Where something has to change, a covered usage is repaired, whatever is expected of it. -/
theorem Reconciliation.exists_repairAt {u : Usage} {e : PerKind RepoSet} (generated : RepoSet)
    (hc : u.Covers e) (hm : (u.missing e).isEmpty ≠ true) :
    ∃ p, u.proxies.head? = some p ∧ (⟨u, generated, e⟩ : Reconciliation).repair? =
      .ok (some ((⟨u, generated, e⟩ : Reconciliation).repairAt p.location)) := by
  have hdiff : (⟨u, generated, e⟩ : Reconciliation).diff.isEmpty ≠ true := hm
  have hplan : (⟨u, generated, e⟩ : Reconciliation).diff.plan u.proxies =
      .ok (EditPlan.ofList ((u.missing e).sequence u)) := by
    have hcommands := ImportDiff.commands_eq_ok hc.has_of_missing
    rw [Usage.missing] at hcommands
    simp only [ImportDiff.plan, Reconciliation.diff, Reconciliation.actual, hcommands]
    rfl
  obtain ⟨p, ps, hps⟩ : ∃ p ps, u.proxies = p :: ps := by
    apply List.exists_cons_of_ne_nil
    intro hnil
    apply hm
    rw [Usage.missing_isEmpty_iff hc, hnil]
    simp
  have hhead : u.proxies.head? = some p := by rw [hps, List.head?_cons]
  refine ⟨p, hhead, ?_⟩
  rw [Reconciliation.repair?, if_neg hdiff, hplan]
  simp only [bind, Except.bind, hhead]
  rfl

theorem Reconciliation.exists_repair? {u : Usage} {e : PerKind RepoSet} (generated : RepoSet)
    (hc : u.Covers e) (hm : (u.missing e).isEmpty ≠ true) :
    ∃ f, (⟨u, generated, e⟩ : Reconciliation).repair? = .ok (some f) ∧
      f.commands = EditPlan.ofList ((u.missing e).sequence u) := by
  obtain ⟨p, -, hrepair⟩ := exists_repairAt generated hc hm
  exact ⟨_, hrepair, rfl⟩

namespace Declaration

variable {d : Declaration} {generated : RepoSet} {e : PerKind RepoSet} {u : Usage}

theorem repair?_eq_bind (he : d.expected generated = .ok (some e)) :
    d.repair? u generated = Reconciliation.make u generated e >>= Reconciliation.repair? := by
  simp only [repair?, he]
  rfl

/-- A repair is only refused or made for a usage with the proxies that are needed. -/
theorem covers_of_repair? (he : d.expected generated = .ok (some e)) {x : Option Repair}
    (h : d.repair? u generated = .ok x) : u.Covers e := by
  rw [repair?_eq_bind he, Except.bind_eq_ok_iff] at h
  obtain ⟨r, hr, -⟩ := h
  exact (Reconciliation.make_eq_ok_iff.mp hr).1

theorem repair?_of_covers (he : d.expected generated = .ok (some e)) (hc : u.Covers e) :
    d.repair? u generated = (⟨u, generated, e⟩ : Reconciliation).repair? := by
  have hr : Reconciliation.make u generated e = .ok ⟨u, generated, e⟩ :=
    Reconciliation.make_eq_ok_iff.mpr ⟨hc, rfl⟩
  rw [repair?_eq_bind he, hr]
  rfl

theorem repair?_eq_none (he : d.expected generated = .ok (some e)) (hc : u.Covers e)
    (hm : (u.missing e).isEmpty = true) : d.repair? u generated = .ok none := by
  have hdiff : (⟨u, generated, e⟩ : Reconciliation).diff.isEmpty = true := hm
  rw [repair?_of_covers he hc, Reconciliation.repair?, if_pos hdiff]

/-- Where something has to change, a repair is made, with the commands for what has to change. -/
theorem exists_repair (he : d.expected generated = .ok (some e)) (hc : u.Covers e)
    (hm : (u.missing e).isEmpty ≠ true) :
    ∃ f, d.repair? u generated = .ok (some f) ∧
      f.commands = EditPlan.ofList ((u.missing e).sequence u) := by
  rw [repair?_of_covers he hc]
  exact Reconciliation.exists_repair? generated hc hm

/-- What is known of a repair that was made. -/
theorem of_repair?_eq_some (he : d.expected generated = .ok (some e)) {f : Repair}
    (h : d.repair? u generated = .ok (some f)) :
    u.Covers e ∧ (u.missing e).isEmpty ≠ true ∧
      f.commands = EditPlan.ofList ((u.missing e).sequence u) := by
  have hc := covers_of_repair? he h
  have hm : (u.missing e).isEmpty ≠ true := by
    intro hempty
    rw [repair?_eq_none he hc hempty] at h
    cases h
  obtain ⟨f', hf', hcommands⟩ := exists_repair he hc hm
  rw [hf'] at h
  cases h
  exact ⟨hc, hm, hcommands⟩

/-- All that a repair holds. Its warning is attached to the first proxy. -/
theorem eq_repairAt (he : d.expected generated = .ok (some e)) {f : Repair}
    (h : d.repair? u generated = .ok (some f)) :
    ∃ p, u.proxies.head? = some p ∧
      f = (⟨u, generated, e⟩ : Reconciliation).repairAt p.location := by
  obtain ⟨hc, hm, -⟩ := of_repair?_eq_some he h
  obtain ⟨p, hp, hrepair⟩ := Reconciliation.exists_repairAt generated hc hm
  rw [repair?_of_covers he hc, hrepair] at h
  cases h
  exact ⟨p, hp, rfl⟩

/-- The warning of a repair tells of the reconciliation that it was made for. -/
theorem message_of_repair? (he : d.expected generated = .ok (some e)) {f : Repair}
    (h : d.repair? u generated = .ok (some f)) :
    f.warning.message = (⟨u, generated, e⟩ : Reconciliation).message := by
  obtain ⟨p, -, rfl⟩ := eq_repairAt he h
  rfl

/-- A repair asks each proxy for what it has to add and to drop. -/
theorem asked_repair_iff (he : d.expected generated = .ok (some e)) {f : Repair}
    (h : d.repair? u generated = .ok (some f)) (hd : u.DistinctAddresses) {p : Proxy}
    (hp : p ∈ u.proxies) {a : Action} {n : String} :
    p.Asked f.commands.toList a n ↔ u.Wants e p a n := by
  have hcommands := (of_repair?_eq_some he h).2.2
  calc
    p.Asked f.commands.toList a n ↔ p.Asked ((u.missing e).sequence u) a n := by
      simp only [hcommands, Proxy.asked_iff_placed, EditPlan.placed_toList_ofList]
    _ ↔ u.Wants e p a n := Usage.asked_sequence_iff hd hp

end Declaration

end ImportRepair
