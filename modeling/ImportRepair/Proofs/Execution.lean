import ImportRepair.Proofs.CommandText
import ImportRepair.Repair.Application

/-!
# Effects of commands

When no two proxies share an address, carrying out commands changes each proxy on its own: a proxy
obeys the commands that address it. If no repository is both added to a proxy and removed from it,
the imports of the proxy afterwards depend only on what it was asked to add and to remove, and not
on the order in which it was asked.

## Implementation notes

`Proxy.Asked` forgets how repositories are spread over commands. `mem_imports_obeyAll` describes
the imports after any list of commands by it.
-/

namespace ImportRepair

/-- A command is for a proxy. -/
def PlacedCommand.Addresses (c : PlacedCommand) (p : Proxy) : Prop :=
  p.AddressedBy c.path c.command.label

instance (c : PlacedCommand) (p : Proxy) : Decidable (c.Addresses p) :=
  inferInstanceAs (Decidable (p.AddressedBy c.path c.command.label))

namespace Proxy

/-- Two proxies that no command can tell apart. -/
def SameAddress (p q : Proxy) : Prop := p.path.Same q.path ∧ p.label = q.label

instance (p q : Proxy) : Decidable (p.SameAddress q) := inferInstanceAs (Decidable (_ ∧ _))

theorem SameAddress.symm {p q : Proxy} (h : p.SameAddress q) : q.SameAddress p :=
  ⟨h.1.symm, h.2.symm⟩

theorem sameAddress_of_addresses {c : PlacedCommand} {p q : Proxy} (hp : c.Addresses p)
    (hq : c.Addresses q) : p.SameAddress q :=
  ⟨hp.1.trans hq.1.symm, hp.2.trans hq.2.symm⟩

theorem addresses_command (p : Proxy) (a : Action) (repos : RepoSet) :
    (p.command a repos).Addresses p := ⟨ModulePath.same_refl _, rfl⟩

/-- Carry out a command if it is for the proxy. -/
def obey (p : Proxy) (c : PlacedCommand) : Proxy :=
  if c.Addresses p then p.execute c.command else p

theorem obey_of_addresses {p : Proxy} {c : PlacedCommand} (h : c.Addresses p) :
    p.obey c = p.execute c.command := if_pos h

theorem obey_of_not_addresses {p : Proxy} {c : PlacedCommand} (h : ¬c.Addresses p) :
    p.obey c = p := if_neg h

/-- Carry out those of the commands that are for the proxy. -/
def obeyAll (p : Proxy) (cs : List PlacedCommand) : Proxy := cs.foldl obey p

@[simp] theorem obeyAll_nil (p : Proxy) : p.obeyAll [] = p := rfl

@[simp] theorem obeyAll_cons (p : Proxy) (c : PlacedCommand) (cs : List PlacedCommand) :
    p.obeyAll (c :: cs) = (p.obey c).obeyAll cs := rfl

/-- Commands change imports alone. -/
theorem obey_eq (p : Proxy) (c : PlacedCommand) :
    p.obey c = { p with imports := (p.obey c).imports } := by
  simp only [obey, execute]
  split
  · split <;> rfl
  · rfl

theorem obeyAll_eq (p : Proxy) (cs : List PlacedCommand) :
    p.obeyAll cs = { p with imports := (p.obeyAll cs).imports } := by
  induction cs generalizing p with
  | nil => rfl
  | cons c cs ih =>
      rw [obeyAll_cons, ih (p.obey c), obey_eq p c]

@[simp] theorem path_obeyAll (p : Proxy) (cs : List PlacedCommand) :
    (p.obeyAll cs).path = p.path := by
  rw [obeyAll_eq]

@[simp] theorem name_obeyAll (p : Proxy) (cs : List PlacedCommand) :
    (p.obeyAll cs).name = p.name := by
  rw [obeyAll_eq]

@[simp] theorem kind_obeyAll (p : Proxy) (cs : List PlacedCommand) :
    (p.obeyAll cs).kind = p.kind := by
  rw [obeyAll_eq]

/-- What commands leave as it is: all of a proxy but its imports. -/
def frame (p : Proxy) : Proxy := { p with imports := ∅ }

@[simp] theorem frame_obeyAll (p : Proxy) (cs : List PlacedCommand) :
    (p.obeyAll cs).frame = p.frame := by
  rw [obeyAll_eq]
  rfl

@[simp] theorem label_obeyAll (p : Proxy) (cs : List PlacedCommand) :
    (p.obeyAll cs).label = p.label := by
  simp only [label, name_obeyAll]

@[simp] theorem addresses_obeyAll {c : PlacedCommand} {p : Proxy} {cs : List PlacedCommand} :
    c.Addresses (p.obeyAll cs) ↔ c.Addresses p := by
  simp only [PlacedCommand.Addresses, AddressedBy, path_obeyAll, label_obeyAll]

/-- Some command for the proxy takes an action on a repository. -/
def Asked (p : Proxy) (cs : List PlacedCommand) (a : Action) (n : String) : Prop :=
  ∃ c ∈ cs, c.Addresses p ∧ c.command.action = a ∧ n ∈ c.command.repos

theorem not_asked_nil (p : Proxy) (a : Action) (n : String) : ¬p.Asked [] a n := by
  simp [Asked]

theorem asked_cons {p : Proxy} {c : PlacedCommand} {cs : List PlacedCommand} {a : Action}
    {n : String} :
    p.Asked (c :: cs) a n ↔
      (c.Addresses p ∧ c.command.action = a ∧ n ∈ c.command.repos) ∨ p.Asked cs a n := by
  simp only [Asked, List.mem_cons, or_and_right, exists_or, exists_eq_left]

@[simp] theorem asked_obeyAll {p : Proxy} {cs cs' : List PlacedCommand} {a : Action} {n : String} :
    (p.obeyAll cs').Asked cs a n ↔ p.Asked cs a n := by
  simp only [Asked, addresses_obeyAll]

theorem asked_obey {p : Proxy} {c : PlacedCommand} {cs : List PlacedCommand} {a : Action}
    {n : String} : (p.obey c).Asked cs a n ↔ p.Asked cs a n :=
  @asked_obeyAll p cs [c] a n

/-- What one command does to the entries of a proxy. -/
theorem mem_imports_obey {p : Proxy} {c : PlacedCommand} {e : String × String} :
    e ∈ (p.obey c).imports.toList ↔
      (e.1 = e.2 ∧ p.Asked [c] .add e.1) ∨
        (e ∈ p.imports.toList ∧ ¬p.Asked [c] .add e.1 ∧ ¬p.Asked [c] .remove e.2) := by
  by_cases ha : c.Addresses p
  · rw [obey_of_addresses ha]
    cases hact : c.command.action with
    | add =>
        simp only [execute, hact, AliasMap.mem_withRepos, asked_cons, not_asked_nil, ha,
          reduceCtorEq, true_and, false_and, and_false, or_false, not_false_eq_true, and_true]
        rw [and_comm (a := e.1 ∉ c.command.repos)]
    | remove =>
        simp only [execute, hact, AliasMap.mem_withoutRepos, asked_cons, not_asked_nil, ha,
          reduceCtorEq, true_and, false_and, and_false, or_false, false_or, not_false_eq_true]
  · rw [obey_of_not_addresses ha]
    simp [asked_cons, not_asked_nil, ha]

/-- The entries of a proxy after commands that do not add and remove one repository: names it was
asked to add, each under itself, and what it had before, unless its alias was taken or its
repository was removed. -/
theorem mem_imports_obeyAll {p : Proxy} {cs : List PlacedCommand}
    (h : ∀ n, p.Asked cs .add n → ¬p.Asked cs .remove n) {e : String × String} :
    e ∈ (p.obeyAll cs).imports.toList ↔
      (e.1 = e.2 ∧ p.Asked cs .add e.1) ∨
        (e ∈ p.imports.toList ∧ ¬p.Asked cs .add e.1 ∧ ¬p.Asked cs .remove e.2) := by
  induction cs generalizing p with
  | nil => simp [not_asked_nil]
  | cons c cs ih =>
      have hsplit : ∀ a n, p.Asked (c :: cs) a n ↔ p.Asked [c] a n ∨ p.Asked cs a n := by
        intro a n
        simp only [asked_cons, not_asked_nil, or_false]
      have hrest : ∀ n, (p.obey c).Asked cs .add n → ¬(p.obey c).Asked cs .remove n := by
        intro n hadd hremove
        apply h n
        · exact (hsplit _ _).mpr (Or.inr (asked_obey.mp hadd))
        · exact (hsplit _ _).mpr (Or.inr (asked_obey.mp hremove))
      rw [obeyAll_cons, ih hrest, mem_imports_obey]
      simp only [asked_obey, hsplit, not_or]
      constructor
      · rintro (⟨heq, hadd⟩ | ⟨⟨heq, hadd⟩ | ⟨he, hnow, hnow'⟩, hlater, hlater'⟩)
        · exact Or.inl ⟨heq, Or.inr hadd⟩
        · exact Or.inl ⟨heq, Or.inl hadd⟩
        · exact Or.inr ⟨he, ⟨hnow, hlater⟩, hnow', hlater'⟩
      · rintro (⟨heq, hadd⟩ | ⟨he, ⟨hnow, hlater⟩, hnow', hlater'⟩)
        · -- An entry that was added first stays, since later commands do not remove it.
          by_cases hlater : p.Asked cs .add e.1
          · exact Or.inl ⟨heq, hlater⟩
          · have hnow := hadd.resolve_right hlater
            have hkept : ¬p.Asked cs .remove e.2 := by
              intro hremove
              apply h e.1 ((hsplit _ _).mpr hadd)
              rw [heq]
              exact (hsplit _ _).mpr (Or.inr hremove)
            exact Or.inr ⟨Or.inl ⟨heq, hnow⟩, hlater, hkept⟩
        · exact Or.inr ⟨Or.inr ⟨he, hnow, hnow'⟩, hlater, hlater'⟩

end Proxy

namespace Usage

/-- No two proxies have the same address. -/
def DistinctAddresses (u : Usage) : Prop := u.proxies.Pairwise fun p q => ¬p.SameAddress q

instance (u : Usage) : Decidable u.DistinctAddresses :=
  inferInstanceAs (Decidable (List.Pairwise _ _))

/-- The position of the first proxy that a command addresses. -/
def position? (u : Usage) (c : PlacedCommand) : Option Nat :=
  u.proxies.findIdx? fun p => c.Addresses p

/-- A command reaches the proxy at a position if it addresses it, and no proxy before it. -/
theorem position?_eq_some_iff_first {u : Usage} {c : PlacedCommand} {i : Nat} :
    u.position? c = some i ↔ (∃ p, u.proxies[i]? = some p ∧ c.Addresses p) ∧
      ∀ j < i, ∀ q, u.proxies[j]? = some q → ¬c.Addresses q := by
  simp only [position?, List.findIdx?_eq_some_iff_getElem, decide_eq_true_eq]
  constructor
  · rintro ⟨hi, haddr, hbefore⟩
    refine ⟨⟨_, List.getElem?_eq_getElem hi, haddr⟩, ?_⟩
    intro j hj q hq
    obtain ⟨hj', rfl⟩ := List.getElem?_eq_some_iff.mp hq
    exact hbefore j hj
  · rintro ⟨⟨p, hp, haddr⟩, hbefore⟩
    obtain ⟨hi, rfl⟩ := List.getElem?_eq_some_iff.mp hp
    exact ⟨hi, haddr, fun j hj => hbefore j hj _ (List.getElem?_eq_getElem _)⟩

/-- The usage whose proxies have obeyed commands, each proxy on its own. -/
def obeyAll (u : Usage) (cs : List PlacedCommand) : Usage :=
  { u with proxies := u.proxies.map fun p => p.obeyAll cs }

theorem map_frame_obeyAll (u : Usage) (cs : List PlacedCommand) :
    (u.obeyAll cs).proxies.map Proxy.frame = u.proxies.map Proxy.frame := by
  simp only [obeyAll, List.map_map, Function.comp_def, Proxy.frame_obeyAll]

theorem DistinctAddresses.obeyAll {u : Usage} (h : u.DistinctAddresses)
    (cs : List PlacedCommand) : (u.obeyAll cs).DistinctAddresses := by
  simp only [DistinctAddresses, Usage.obeyAll, List.pairwise_map, Proxy.SameAddress,
    Proxy.path_obeyAll, Proxy.label_obeyAll]
  exact h

/-- Where addresses are distinct, the first addressed proxy is the only one. -/
theorem executeFirst_eq_some {c : PlacedCommand} {ps : List Proxy}
    (hd : ps.Pairwise fun p q => ¬p.SameAddress q) (ha : ∃ p ∈ ps, c.Addresses p) :
    executeFirst c.path c.command ps = some (ps.map fun p => p.obey c) := by
  induction ps with
  | nil => simp at ha
  | cons p ps ih =>
      rw [List.pairwise_cons] at hd
      by_cases hp : c.Addresses p
      · have hnot : ∀ q ∈ ps, q.obey c = id q := by
          intro q hq
          apply Proxy.obey_of_not_addresses
          intro hqa
          exact hd.1 q hq (Proxy.sameAddress_of_addresses hp hqa)
        have hrest : ps.map (fun q => q.obey c) = ps := by
          rw [List.map_congr_left hnot, List.map_id]
        have hfirst : p.AddressedBy c.path c.command.label := hp
        rw [executeFirst, if_pos hfirst, List.map_cons, hrest, Proxy.obey_of_addresses hp]
      · have ha' : ∃ q ∈ ps, c.Addresses q := by
          obtain ⟨q, hq, hqa⟩ := ha
          rcases List.mem_cons.mp hq with rfl | hq
          · exact absurd hqa hp
          · exact ⟨q, hq, hqa⟩
        have hfirst : ¬p.AddressedBy c.path c.command.label := hp
        rw [executeFirst, if_neg hfirst, ih hd.2 ha', Option.map_some, List.map_cons,
          Proxy.obey_of_not_addresses hp]

theorem executeText_eq_ok {u : Usage} {c : PlacedCommand} (hd : u.DistinctAddresses)
    (hr : c.command.Readable) (ha : ∃ p ∈ u.proxies, c.Addresses p) :
    u.executeText c.path c.command.text = .ok (u.obeyAll [c]) := by
  simp only [executeText, Command.parse_text hr, execute, executeFirst_eq_some hd ha]
  rfl

/-- Readable commands for existing proxies are carried out, each at the proxy it addresses. -/
theorem executeAll_eq_ok {u : Usage} {cs : List PlacedCommand} (hd : u.DistinctAddresses)
    (hr : ∀ c ∈ cs, c.command.Readable) (ha : ∀ c ∈ cs, ∃ p ∈ u.proxies, c.Addresses p) :
    u.executeAll cs = .ok (u.obeyAll cs) := by
  induction cs generalizing u with
  | nil => simp [executeAll, obeyAll]; rfl
  | cons c cs ih =>
      have hstep := executeText_eq_ok hd (hr c (List.mem_cons_self ..)) (ha c (List.mem_cons_self ..))
      have ha' : ∀ c' ∈ cs, ∃ p ∈ (u.obeyAll [c]).proxies, c'.Addresses p := by
        intro c' hc'
        obtain ⟨p, hp, hpa⟩ := ha c' (List.mem_cons_of_mem _ hc')
        exact ⟨p.obeyAll [c], List.mem_map_of_mem hp, Proxy.addresses_obeyAll.mpr hpa⟩
      have hrest := ih (hd.obeyAll [c]) (fun c' hc' => hr c' (List.mem_cons_of_mem _ hc')) ha'
      have hboth : (u.obeyAll [c]).obeyAll cs = u.obeyAll (c :: cs) := by
        simp only [obeyAll, List.map_map]
        rfl
      calc
        u.executeAll (c :: cs) = (u.obeyAll [c]).executeAll cs := by
          simp only [executeAll, List.foldlM_cons, hstep]
          rfl
        _ = .ok ((u.obeyAll [c]).obeyAll cs) := hrest
        _ = .ok (u.obeyAll (c :: cs)) := by rw [hboth]

end Usage

end ImportRepair
