import ImportRepair.Proofs.Outcome
import ImportRepair.Proofs.RepairCommands

/-!
# What a repair does not depend on

A repair looks at a usage through the kinds of its proxies and the imports of each kind. In whatever
order the proxies stand and however the imports of a kind are spread over them, the same failure
occurs or the same warning is given, and the same repositories are added
(`repair?_of_same_imports`). Which command goes to which proxy does depend on the proxies, but not on
the aliases under which they import (`repair?_of_realiased`).
-/

namespace ImportRepair

/-- The same failure, no repair in either case, or two repairs that are related. -/
inductive SameVerdict (R : Repair → Repair → Prop) :
    Except RepairError (Option Repair) → Except RepairError (Option Repair) → Prop
  | refused (err : RepairError) : SameVerdict R (.error err) (.error err)
  | needless : SameVerdict R (.ok none) (.ok none)
  | repaired {f f' : Repair} (h : R f f') : SameVerdict R (.ok (some f)) (.ok (some f'))

theorem SameVerdict.exists_repair {R : Repair → Repair → Prop} {f : Repair}
    {x : Except RepairError (Option Repair)} (h : SameVerdict R (.ok (some f)) x) :
    ∃ f', x = .ok (some f') ∧ R f f' := by
  cases h with
  | repaired h => exact ⟨_, rfl, h⟩

namespace Reconciliation

theorem message_congr {r r' : Reconciliation} (hfile : r'.usage.bzlFile = r.usage.bzlFile)
    (hname : r'.usage.extensionName = r.usage.extensionName)
    (h : ∀ m, r'.mismatch m = r.mismatch m) : r'.message = r.message := by
  have hmismatches : r'.mismatches = r.mismatches := mismatches_eq_iff.mpr h
  unfold message
  rw [hname, hfile, hmismatches]

variable {u u' : Usage}

theorem mismatch_congr (himported : u'.imported = u.imported) (generated : RepoSet)
    (e : PerKind RepoSet) (m : Mismatch) :
    (⟨u', generated, e⟩ : Reconciliation).mismatch m =
      (⟨u, generated, e⟩ : Reconciliation).mismatch m := by
  cases m <;> simp only [mismatch, actual, himported]

/-- The failure of a usage depends on the kinds of its proxies. -/
theorem make_eq_error_congr (hhas : ∀ k, u'.has k = u.has k) {generated generated' : RepoSet}
    {e : PerKind RepoSet} {err : RepairError} :
    make u' generated' e = .error err ↔ make u generated e = .error err := by
  simp only [make_eq_error_iff, hhas]

end Reconciliation

theorem Usage.covers_congr {u u' : Usage} {e : PerKind RepoSet} (hhas : ∀ k, u'.has k = u.has k) :
    u'.Covers e ↔ u.Covers e := by
  simp only [Covers, hhas]

namespace Declaration

variable {d : Declaration} {u u' : Usage} {generated : RepoSet}

/-- Verdicts agree on usages with the same kinds and imports, up to what the two repairs hold. -/
theorem sameVerdict {R : Repair → Repair → Prop} (hhas : ∀ k, u'.has k = u.has k)
    (himported : u'.imported = u.imported)
    (hR : ∀ e p p', d.expected generated = .ok (some e) → u.Covers e →
      u.proxies.head? = some p → u'.proxies.head? = some p' →
        R ((⟨u, generated, e⟩ : Reconciliation).repairAt p.location)
          ((⟨u', generated, e⟩ : Reconciliation).repairAt p'.location)) :
    SameVerdict R (d.repair? u generated) (d.repair? u' generated) := by
  cases he : d.expected generated with
  | error err =>
      rw [repair?_eq_error_iff.mpr (Or.inl he), repair?_eq_error_iff.mpr (Or.inl he)]
      exact .refused err
  | ok x =>
      cases x with
      | none =>
          have hnone := expected_eq_none_iff.mp he
          rw [repair?_eq_none_iff.mpr (Or.inl hnone), repair?_eq_none_iff.mpr (Or.inl hnone)]
          exact .needless
      | some e =>
          by_cases hc : u.Covers e
          · have hc' := (Usage.covers_congr hhas).mpr hc
            by_cases heq : u.imported = e
            · rw [repair?_eq_none_iff.mpr (Or.inr ⟨e, he, heq⟩),
                repair?_eq_none_iff.mpr (Or.inr ⟨e, he, himported.trans heq⟩)]
              exact .needless
            · obtain ⟨f, hf⟩ := exists_repair_iff.mpr ⟨e, he, hc, heq⟩
              obtain ⟨f', hf'⟩ := exists_repair_iff.mpr ⟨e, he, hc', himported ▸ heq⟩
              obtain ⟨p, hp, rfl⟩ := eq_repairAt he hf
              obtain ⟨p', hp', rfl⟩ := eq_repairAt he hf'
              rw [hf, hf']
              exact .repaired (hR e p p' he hc hp hp')
          · obtain ⟨err, hmake⟩ := (Reconciliation.exists_make_eq_error_iff generated).mpr hc
            have hmake' : Reconciliation.make u' generated e = .error err :=
              (Reconciliation.make_eq_error_congr hhas).mpr hmake
            rw [repair?_eq_error_iff.mpr (Or.inr ⟨e, he, hmake⟩),
              repair?_eq_error_iff.mpr (Or.inr ⟨e, he, hmake'⟩)]
            exact .refused err

end Declaration

namespace Usage

variable {u u' : Usage} {e : PerKind RepoSet} {as bs : List Assignment} {k : DepKind}

/-- What the additions name that are made for a kind. -/
def additionsFor (u : Usage) (as : List Assignment) (k : DepKind) : List RepoSet :=
  (as.filter fun a => a.action = .add ∧ u.kindAt? a.position = some k).map (·.repos)

/-- The commands of a repair, assigned to the proxies that they are made for. -/
def Made (u : Usage) (e : PerKind RepoSet) (f : Repair) (as : List Assignment) : Prop :=
  as.map (·.placed) = f.commands.toList ∧ ∀ a ∈ as, u.MadeFor e a.placed a.position

theorem additionsFor_append :
    u.additionsFor (as ++ bs) k = u.additionsFor as k ++ u.additionsFor bs k := by
  simp only [additionsFor, List.filter_append, List.map_append]

theorem additionsFor_perm (h : (bs.map (·.inFile)).Perm (as.map (·.inFile))) :
    (u.additionsFor bs k).Perm (u.additionsFor as k) := by
  have hinFile : ∀ l : List Assignment, u.additionsFor l k =
      ((l.map (·.inFile)).filter fun c =>
        c.1.2.action = .add ∧ u.kindAt? c.2 = some k).map (·.1.2.repos) := by
    intro l
    rw [List.filter_map, List.map_map]
    rfl
  rw [hinFile, hinFile]
  exact (h.filter _).map _

theorem additionsFor_eq_nil (h : ∀ a ∈ as, a.action = .remove) : u.additionsFor as k = [] := by
  rw [additionsFor, List.map_eq_nil_iff, List.filter_eq_nil_iff]
  intro a ha
  simp [h a ha]

theorem additionsFor_assignedAddition? {d : ImportDiff} {k' : DepKind} :
    u.additionsFor (d.assignedAddition? u k').toList k =
      if k' = k then ((d.addition? u k').map (·.command.repos)).toList else [] := by
  have hplaced := ImportDiff.map_placed_assignedAddition? (d := d) (u := u) (k := k')
  cases ha : d.assignedAddition? u k' with
  | none =>
      rw [← hplaced, ha]
      simp [additionsFor]
  | some a =>
      obtain ⟨p, -, hp, rfl, -⟩ := ImportDiff.of_mem_assignedAddition? ha
      have hadd := ImportDiff.action_of_mem_assignedAddition? ha
      have hkind : u.kindAt? a.position = some p.kind := by rw [kindAt?, hp, Option.map_some]
      rw [← hplaced, ha]
      by_cases hk : p.kind = k
      · simp [additionsFor, hadd, hkind, hk, Assignment.repos]
      · simp [additionsFor, hkind, hk]

/-- A kind of which something is missing gets an addition that names all of it. -/
theorem additionsFor_assignments (hc : u.Covers e) :
    u.additionsFor ((u.missing e).assignments u) k =
      if (u.missing e).add.get k = ∅ then [] else [(u.missing e).add.get k] := by
  have hremovals : u.additionsFor ((u.missing e).assignedRemovals u) k = [] :=
    additionsFor_eq_nil fun a ha => ImportDiff.action_of_mem_assignedRemovals ha
  have haddition : ((u.missing e).addition? u k).map (·.command.repos) =
      if (u.missing e).add.get k = ∅ then none else some ((u.missing e).add.get k) := by
    rw [ImportDiff.addition?]
    split
    · rfl
    · rename_i hne
      obtain ⟨p, hp⟩ := exists_first? ((hc.has_of_missing k).resolve_left hne)
      rw [hp]
      rfl
  have hown : u.additionsFor ((u.missing e).assignments u) k =
      (((u.missing e).addition? u k).map (·.command.repos)).toList := by
    rw [ImportDiff.assignments, additionsFor_append, additionsFor_append, hremovals,
      additionsFor_assignedAddition?, additionsFor_assignedAddition?]
    cases k <;> simp
  rw [hown, haddition]
  split <;> rfl

/-- The commands of a repair are made for proxies, with at most one addition for each kind. -/
theorem exists_made (hc : u.Covers e) {f : Repair}
    (hf : f.commands = EditPlan.ofList ((u.missing e).sequence u)) :
    ∃ as, u.Made e f as ∧ ∀ k, u.additionsFor as k =
      if (u.missing e).add.get k = ∅ then [] else [(u.missing e).add.get k] := by
  obtain ⟨as, hplaced, hperm⟩ := exists_grouped ((u.missing e).assignments u)
  rw [ImportDiff.map_placed_assignments, ← hf] at hplaced
  have hassigned := (ImportDiff.assigned_assignments (u := u) e).of_perm hperm
  refine ⟨as, ⟨hplaced, hassigned.madeFor⟩, ?_⟩
  intro k
  have hadditions := additionsFor_perm (u := u) (k := k) hperm
  rw [additionsFor_assignments hc] at hadditions
  by_cases hk : (u.missing e).add.get k = ∅
  · rw [if_pos hk] at hadditions ⊢
    exact hadditions.eq_nil
  · rw [if_neg hk] at hadditions ⊢
    exact hadditions.eq_singleton

end Usage

namespace Declaration

/-- Proxies may stand in any order, and the imports of a kind may be spread over its proxies in any
way: the same failure occurs, or there is nothing to repair, or the warnings are equally serious and
say the same and the additions for each kind name the same repositories. -/
theorem repair?_of_same_imports (d : Declaration) (generated : RepoSet) (u u' : Usage)
    (hfile : u'.bzlFile = u.bzlFile) (hname : u'.extensionName = u.extensionName)
    (hhas : ∀ k, u'.has k = u.has k) (himported : u'.imported = u.imported) :
    SameVerdict (fun f f' =>
        f'.warning.severity = f.warning.severity ∧ f'.warning.message = f.warning.message ∧
          ∃ e as as', d.expected generated = .ok (some e) ∧ u.Made e f as ∧ u'.Made e f' as' ∧
            ∀ k, u'.additionsFor as' k = u.additionsFor as k ∧ (u.additionsFor as k).length ≤ 1)
      (d.repair? u generated) (d.repair? u' generated) := by
  apply sameVerdict hhas himported
  intro e p p' he hc _ _
  have hmessage := Reconciliation.message_congr hfile hname
    (Reconciliation.mismatch_congr himported generated e)
  refine ⟨rfl, hmessage, e, ?_⟩
  have hc' := (Usage.covers_congr hhas).mpr hc
  obtain ⟨as, hmade, hadditions⟩ := Usage.exists_made hc (f :=
    (⟨u, generated, e⟩ : Reconciliation).repairAt p.location) rfl
  obtain ⟨as', hmade', hadditions'⟩ := Usage.exists_made hc' (f :=
    (⟨u', generated, e⟩ : Reconciliation).repairAt p'.location) rfl
  have hmissing : u'.missing e = u.missing e := by rw [Usage.missing, Usage.missing, himported]
  refine ⟨as, as', he, hmade, hmade', ?_⟩
  intro k
  rw [hadditions', hadditions, hmissing]
  refine ⟨rfl, ?_⟩
  split <;> simp

end Declaration

/-- The proxies of `mixedUsage` in another order, with all regular imports in one of them. -/
def regroupedUsage : Usage where
  bzlFile := "@ext_mod//:extensions.bzl"
  extensionName := "ext"
  proxies := [
    { path := ⟨"sub/extra.bazel"⟩, location := ⟨"sub/extra.bazel", 3, 1⟩ },
    { path := ⟨"MODULE.bazel"⟩, name := "ext_dev", kind := .dev, location := ⟨"MODULE.bazel", 20, 11⟩
      imports := .ofList [("b", "b")] },
    { path := ⟨"MODULE.bazel"⟩, name := "ext", location := ⟨"MODULE.bazel", 10, 7⟩
      imports := .ofList [("c", "c"), ("d", "d"), ("zz", "zz")] }]

/-- The regular addition goes to another file and names the same repositories. -/
theorem repair?_of_same_imports_of_regroupedUsage :
    (∀ k, regroupedUsage.has k = mixedUsage.has k) ∧
      regroupedUsage.imported = mixedUsage.imported ∧
      ∃ f f', mixedDeclaration.repair? mixedUsage mixedGenerated = .ok (some f) ∧
        mixedDeclaration.repair? regroupedUsage mixedGenerated = .ok (some f') ∧
        f'.commands ≠ f.commands ∧ f'.warning.message = f.warning.message ∧
        ∃ e as as', mixedUsage.Made e f as ∧ regroupedUsage.Made e f' as' ∧
          ∀ k, regroupedUsage.additionsFor as' k = mixedUsage.additionsFor as k := by
  have hhas : ∀ k, regroupedUsage.has k = mixedUsage.has k := by decide
  have himported : regroupedUsage.imported = mixedUsage.imported := by decide
  have hverdict := Declaration.repair?_of_same_imports mixedDeclaration mixedGenerated
    mixedUsage regroupedUsage rfl rfl hhas himported
  obtain ⟨f, hf, hcommands⟩ := Declaration.exists_repair_of_mixedUsage
  rw [hf] at hverdict
  obtain ⟨f', hf', -, hmessage, e, as, as', -, hmade, hmade', hadditions⟩ :=
    hverdict.exists_repair
  have hcommands' := (Declaration.of_repair?_eq_some mixedDeclaration_expected hf').2.2
  refine ⟨hhas, himported, f, f', hf, hf', ?_, hmessage, e, as, as', hmade, hmade',
    fun k => (hadditions k).1⟩
  rw [hcommands, hcommands']
  decide

/-- The same proxy, but for the aliases under which it imports. -/
structure Proxy.Realiased (p q : Proxy) : Prop where
  path : q.path = p.path
  name : q.name = p.name
  kind : q.kind = p.kind
  location : q.location = p.location
  repos : q.repos = p.repos

/-- The proxy with every repository imported once, under its own name. -/
def Proxy.plain (p : Proxy) : Proxy := { p with imports := (∅ : AliasMap).withRepos p.repos }

@[simp] theorem Proxy.repos_plain (p : Proxy) : p.plain.repos = p.repos := by
  ext n
  simp [mem_repos, plain]

@[simp] theorem Proxy.location_plain (p : Proxy) : p.plain.location = p.location := rfl

@[simp] theorem Proxy.command_plain (p : Proxy) (a : Action) (s : RepoSet) :
    p.plain.command a s = p.command a s := rfl

theorem Proxy.Realiased.plain_eq {p q : Proxy} (h : p.Realiased q) : q.plain = p.plain := by
  simp only [Proxy.plain, h.path, h.name, h.kind, h.location, h.repos]

theorem Proxy.map_plain_eq {ps qs : List Proxy} (h : List.Forall₂ Proxy.Realiased ps qs) :
    qs.map plain = ps.map plain := by
  induction h with
  | nil => rfl
  | cons hp _ ih => rw [List.map_cons, List.map_cons, hp.plain_eq, ih]

namespace Usage

variable {u u' : Usage} {e : PerKind RepoSet} {k : DepKind}

/-- The usage with every repository imported once by a proxy, under its own name. -/
def plain (u : Usage) : Usage := { u with proxies := u.proxies.map Proxy.plain }

theorem has_plain (u : Usage) (k : DepKind) : u.plain.has k = u.has k :=
  has_map fun _ => Iff.rfl

theorem first?_plain (u : Usage) (k : DepKind) :
    u.plain.first? k = (u.first? k).map Proxy.plain :=
  first?_map fun _ => Iff.rfl

theorem imported_plain (u : Usage) : u.plain.imported = u.imported := by
  ext1 k
  exact imported_map (fun _ => Iff.rfl) Proxy.repos_plain

/-- The commands for a difference do not tell aliases. -/
theorem sequence_plain (d : ImportDiff) (u : Usage) : d.sequence u.plain = d.sequence u := by
  have hadditions : ∀ k, d.addition? u.plain k = d.addition? u k := by
    intro k
    simp only [ImportDiff.addition?, first?_plain, Option.map_map]
    rfl
  have hremovals : ∀ p : Proxy, d.removal? p.plain = d.removal? p := by
    intro p
    simp only [ImportDiff.removal?, Proxy.repos_plain, Proxy.command_plain]
    rfl
  have hproxies : u.plain.proxies.filterMap d.removal? = u.proxies.filterMap d.removal? := by
    simp only [plain, List.filterMap_map, Function.comp_def, hremovals]
  rw [ImportDiff.sequence, ImportDiff.sequence, hadditions, hadditions, hproxies]

theorem plain_eq (hfile : u'.bzlFile = u.bzlFile) (hname : u'.extensionName = u.extensionName)
    (h : List.Forall₂ Proxy.Realiased u.proxies u'.proxies) : u'.plain = u.plain := by
  simp only [plain, hfile, hname, Proxy.map_plain_eq h]

end Usage

/-- The aliases under which proxies import do not show: the same failure occurs, or there is nothing
to repair, or the commands are the same, file by file, and so is the warning. -/
theorem Declaration.repair?_of_realiased (d : Declaration) (generated : RepoSet) (u u' : Usage)
    (hfile : u'.bzlFile = u.bzlFile) (hname : u'.extensionName = u.extensionName)
    (h : List.Forall₂ Proxy.Realiased u.proxies u'.proxies) :
    SameVerdict (fun f f' => f'.commands = f.commands ∧ f'.warning = f.warning)
      (d.repair? u generated) (d.repair? u' generated) := by
  have hplain := Usage.plain_eq hfile hname h
  have hhas : ∀ k, u'.has k = u.has k := by
    intro k
    rw [← u'.has_plain, hplain, u.has_plain]
  have himported : u'.imported = u.imported := by
    rw [← u'.imported_plain, hplain, u.imported_plain]
  apply sameVerdict hhas himported
  intro e p p' _ _ hp hp'
  have hsequence : (u'.missing e).sequence u' = (u.missing e).sequence u := by
    rw [Usage.missing, Usage.missing, himported, ← Usage.sequence_plain, hplain,
      Usage.sequence_plain]
  have hfirst : p'.plain = p.plain := by
    have hhead := congrArg List.head? (Proxy.map_plain_eq h)
    simpa only [List.head?_map, hp, hp', Option.map_some, Option.some.injEq] using hhead
  have hlocation : p'.location = p.location := by
    rw [← p'.location_plain, hfirst, p.location_plain]
  have hmessage := Reconciliation.message_congr hfile hname
    (Reconciliation.mismatch_congr himported generated e)
  simp only [Reconciliation.repairAt, hsequence, hlocation, hmessage, and_self]

/-- `mixedUsage` with other aliases, and with fewer or more of them for `d`. -/
def realiasedUsage : Usage where
  bzlFile := "@ext_mod//:extensions.bzl"
  extensionName := "ext"
  proxies := [
    { path := ⟨"MODULE.bazel"⟩, name := "ext", location := ⟨"MODULE.bazel", 10, 7⟩
      imports := .ofList [("a", "zz"), ("m", "d"), ("n", "d"), ("o", "c")] },
    { path := ⟨"MODULE.bazel"⟩, name := "ext_dev", kind := .dev, location := ⟨"MODULE.bazel", 20, 11⟩
      imports := .ofList [("other_b", "b")] },
    { path := ⟨"sub/extra.bazel"⟩, location := ⟨"sub/extra.bazel", 3, 1⟩
      imports := .ofList [("d", "d")] },
    { path := ⟨"sub//extra.bazel"⟩, name := "more", location := ⟨"sub/extra.bazel", 8, 1⟩
      imports := .ofList [("c", "d"), ("d", "d")] }]

theorem repair?_of_realiased_of_mixedUsage :
    List.Forall₂ Proxy.Realiased mixedUsage.proxies realiasedUsage.proxies ∧
      ∃ f f', mixedDeclaration.repair? mixedUsage mixedGenerated = .ok (some f) ∧
        mixedDeclaration.repair? realiasedUsage mixedGenerated = .ok (some f') ∧
        f'.commands = f.commands ∧ f'.warning = f.warning := by
  have h : List.Forall₂ Proxy.Realiased mixedUsage.proxies realiasedUsage.proxies :=
    .cons ⟨rfl, rfl, rfl, rfl, by decide⟩ <| .cons ⟨rfl, rfl, rfl, rfl, by decide⟩ <|
      .cons ⟨rfl, rfl, rfl, rfl, by decide⟩ <| .cons ⟨rfl, rfl, rfl, rfl, by decide⟩ .nil
  have hverdict := Declaration.repair?_of_realiased mixedDeclaration mixedGenerated
    mixedUsage realiasedUsage rfl rfl h
  obtain ⟨f, hf, -⟩ := Declaration.exists_repair_of_mixedUsage
  rw [hf] at hverdict
  obtain ⟨f', hf', hsame⟩ := hverdict.exists_repair
  exact ⟨h, f, f', hf, hf', hsame⟩

end ImportRepair
