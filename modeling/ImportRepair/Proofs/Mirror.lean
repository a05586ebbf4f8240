import Mathlib.Data.Multiset.Filter
import ImportRepair.Proofs.AcceptedDeclarations
import ImportRepair.Proofs.Outcome

/-!
# Regular and dev as mirror images

Nothing in a repair depends on which kind is called regular. A declaration and a usage are mirrored
by exchanging the kinds; `repair?_mirror` says that the mirrored pair fails in the same class, needs
a repair just when the original pair does, and gets the same commands in each file. The report names
the same repositories, with the two groups for imports of the wrong kind exchanged.

## Implementation notes

Causes of failure are looked for in an order that is not symmetric, and so are commands made.
Therefore failures are compared by their classes and commands as multisets.
-/

namespace ImportRepair

/-- The other kind. -/
def DepKind.other : DepKind → DepKind
  | .regular => .dev
  | .dev => .regular

@[simp] theorem DepKind.other_other (k : DepKind) : k.other.other = k := by
  cases k <;> rfl

theorem DepKind.other_involutive : Function.Involutive DepKind.other := other_other

theorem DepKind.other_eq_iff {k k' : DepKind} : k.other = k' ↔ k = k'.other :=
  other_involutive.eq_iff

/-- The pair with its values exchanged. -/
def PerKind.mirror {α : Type} (p : PerKind α) : PerKind α := .of fun k => p.get k.other

@[simp] theorem PerKind.get_mirror {α : Type} (p : PerKind α) (k : DepKind) :
    p.mirror.get k = p.get k.other := by
  rw [mirror, get_of]

@[simp] theorem PerKind.mirror_mirror {α : Type} (p : PerKind α) : p.mirror.mirror = p := by
  ext k
  simp

theorem PerKind.mirror_involutive {α : Type} :
    Function.Involutive (PerKind.mirror : PerKind α → PerKind α) := mirror_mirror

/-- Lists that may stand together may do so in each other's place. -/
theorem Compatible.mirror {regular dev : List String} (h : Compatible regular dev) :
    Compatible dev regular :=
  ⟨h.dev_valid, h.regular_valid, h.dev_nodup, h.regular_nodup, fun n hn hn' => h.disjoint n hn' hn⟩

/-- The lists exchanged. -/
def DirectDeps.mirror (deps : DirectDeps) : DirectDeps := .ofCompatible deps.compatible.mirror

@[simp] theorem DirectDeps.get_mirror (deps : DirectDeps) (k : DepKind) :
    deps.mirror.get k = deps.get k.other := by
  cases k <;> rfl

@[simp] theorem DirectDeps.mirror_mirror (deps : DirectDeps) : deps.mirror.mirror = deps := rfl

/-- The opinion with the kinds exchanged. -/
def Opinion.mirror : Opinion → Opinion
  | .none => .none
  | .all kind => .all kind.other
  | .listed deps => .listed deps.mirror

@[simp] theorem Opinion.mirror_mirror (o : Opinion) : o.mirror.mirror = o := by
  cases o <;> simp [mirror]

/-- The declaration with the kinds exchanged. -/
def Declaration.mirror (d : Declaration) : Declaration := { d with opinion := d.opinion.mirror }

@[simp] theorem Declaration.mirror_mirror (d : Declaration) : d.mirror.mirror = d := by
  simp [mirror]

/-- The record with its lists exchanged and the claim of every repository made for the other
kind. -/
def DeclarationRecord.mirror (r : DeclarationRecord) : DeclarationRecord :=
  ⟨r.dev, r.regular, r.useAll.map DepKind.other, r.reproducible⟩

@[simp] theorem DeclarationRecord.mirror_mirror (r : DeclarationRecord) : r.mirror.mirror = r := by
  obtain ⟨regular, dev, _ | _ | _, flag⟩ := r <;> rfl

/-- The proxy as one of the other kind. -/
def Proxy.mirror (p : Proxy) : Proxy := { p with kind := p.kind.other }

@[simp] theorem Proxy.repos_mirror (p : Proxy) : p.mirror.repos = p.repos := rfl

@[simp] theorem Proxy.kind_mirror (p : Proxy) : p.mirror.kind = p.kind.other := rfl

@[simp] theorem Proxy.command_mirror (p : Proxy) (a : Action) (s : RepoSet) :
    p.mirror.command a s = p.command a s := rfl

/-- The usage with every proxy as one of the other kind. -/
def Usage.mirror (u : Usage) : Usage := { u with proxies := u.proxies.map Proxy.mirror }

/-- The group of a report that has the same meaning once the kinds are exchanged. -/
def Mismatch.mirror : Mismatch → Mismatch
  | .regularImportOfDev => .devImportOfRegular
  | .devImportOfRegular => .regularImportOfDev
  | m => m

namespace Declaration

variable {d : Declaration} {generated : RepoSet}

/-- Arguments are accepted for a declaration just when they are accepted for its mirror image in
each other's place. -/
theorem opinionOf_mirror {deps devDeps : Argument} {o : Opinion}
    (h : opinionOf deps devDeps = .ok o) : opinionOf devDeps deps = .ok o.mirror := by
  rw [opinionOf_eq_ok_iff] at h ⊢
  rcases h with ⟨rfl, rfl, rfl⟩ | ⟨rfl, rfl, rfl⟩ | ⟨rfl, rfl, rfl⟩ | ⟨lists, rfl, rfl, rfl⟩
  · exact Or.inl ⟨rfl, rfl, rfl⟩
  · exact Or.inr (Or.inr (Or.inl ⟨rfl, rfl, rfl⟩))
  · exact Or.inr (Or.inl ⟨rfl, rfl, rfl⟩)
  · exact Or.inr (Or.inr (Or.inr ⟨lists.mirror, rfl, rfl, rfl⟩))

theorem validate_mirror_iff {deps devDeps : Argument} {flag : Bool} :
    validate devDeps deps flag = .ok d.mirror ↔ validate deps devDeps flag = .ok d := by
  simp only [validate_eq_ok_iff]
  constructor
  · rintro ⟨ho, hflag⟩
    exact ⟨d.opinion.mirror_mirror ▸ opinionOf_mirror ho, hflag⟩
  · rintro ⟨ho, hflag⟩
    exact ⟨opinionOf_mirror ho, hflag⟩

theorem ofRecord_mirror {r : DeclarationRecord} (h : ofRecord r = .ok d) :
    ofRecord r.mirror = .ok d.mirror := by
  obtain ⟨regular, dev, useAll, flag⟩ := r
  obtain ⟨o, flag'⟩ := d
  simp only [ofRecord_eq_ok_iff, DeclarationRecord.mirror, mirror] at h ⊢
  obtain ⟨rfl, ⟨rfl, rfl, rfl, rfl⟩ | ⟨rfl, lists, rfl, rfl, rfl⟩ | ⟨rfl, rfl, hd, rfl⟩ |
    ⟨rfl, rfl, hr, rfl⟩⟩ := h
  · exact ⟨rfl, Or.inl ⟨rfl, rfl, rfl, rfl⟩⟩
  · exact ⟨rfl, Or.inr (Or.inl ⟨rfl, lists.mirror, rfl, rfl, rfl⟩)⟩
  · exact ⟨rfl, Or.inr (Or.inr (Or.inr ⟨rfl, rfl, hd, rfl⟩))⟩
  · exact ⟨rfl, Or.inr (Or.inr (Or.inl ⟨rfl, rfl, hr, rfl⟩))⟩

/-- A record is accepted for a declaration just when its mirror image is accepted for that of the
declaration. -/
theorem ofRecord_mirror_iff {r : DeclarationRecord} :
    ofRecord r.mirror = .ok d.mirror ↔ ofRecord r = .ok d := by
  constructor
  · intro h
    rw [← r.mirror_mirror, ← d.mirror_mirror]
    exact ofRecord_mirror h
  · exact ofRecord_mirror

theorem listsUnknown_mirror_iff {k : DepKind} :
    d.mirror.ListsUnknown generated k ↔ d.ListsUnknown generated k.other := by
  cases ho : d.opinion <;> simp [ListsUnknown, mirror, Opinion.mirror, ho]

theorem callsFor_mirror {e : PerKind RepoSet} (h : d.CallsFor generated e) :
    d.mirror.CallsFor generated e.mirror := by
  cases ho : d.opinion with
  | none => simp [CallsFor, ho] at h
  | all kind =>
      simp only [CallsFor, ho] at h
      simp [CallsFor, mirror, Opinion.mirror, ho, h, DepKind.other_eq_iff]
  | listed deps =>
      simp only [CallsFor, ho] at h
      simp only [CallsFor, mirror, Opinion.mirror, ho, DirectDeps.get_mirror, PerKind.get_mirror]
      exact ⟨fun k => h.1 k.other, fun k => h.2 k.other⟩

theorem expected_mirror_iff {e : PerKind RepoSet} :
    d.mirror.expected generated = .ok (some e.mirror) ↔ d.expected generated = .ok (some e) := by
  simp only [expected_eq_some_iff_callsFor]
  constructor
  · intro h
    rw [← d.mirror_mirror, ← e.mirror_mirror]
    exact callsFor_mirror h
  · exact callsFor_mirror

end Declaration

namespace Usage

variable {u : Usage} {e : PerKind RepoSet}

theorem has_mirror (k : DepKind) : u.mirror.has k = u.has k.other :=
  has_map fun _ => DepKind.other_eq_iff

theorem first?_mirror (k : DepKind) :
    u.mirror.first? k = (u.first? k.other).map Proxy.mirror :=
  first?_map fun _ => DepKind.other_eq_iff

theorem imported_mirror : u.mirror.imported = u.imported.mirror := by
  ext1 k
  rw [PerKind.get_mirror]
  exact imported_map (fun _ => DepKind.other_eq_iff) Proxy.repos_mirror

theorem covers_mirror_iff : u.mirror.Covers e.mirror ↔ u.Covers e := by
  rw [Covers, Covers, DepKind.other_involutive.surjective.forall]
  simp only [PerKind.get_mirror, has_mirror, DepKind.other_other]

theorem add_missing_mirror (k : DepKind) :
    (u.mirror.missing e.mirror).add.get k = (u.missing e).add.get k.other := by
  ext n
  simp only [mem_missing_add, imported_mirror, PerKind.get_mirror]

theorem remove_missing_mirror (k : DepKind) :
    (u.mirror.missing e.mirror).remove.get k = (u.missing e).remove.get k.other := by
  ext n
  simp only [mem_missing_remove, imported_mirror, PerKind.get_mirror]

theorem addition?_mirror (k : DepKind) :
    (u.mirror.missing e.mirror).addition? u.mirror k = (u.missing e).addition? u k.other := by
  simp only [ImportDiff.addition?, add_missing_mirror, first?_mirror, Option.map_map]
  rfl

theorem removal?_mirror (p : Proxy) :
    (u.mirror.missing e.mirror).removal? p.mirror = (u.missing e).removal? p := by
  simp only [ImportDiff.removal?, remove_missing_mirror, Proxy.repos_mirror, Proxy.kind_mirror,
    Proxy.command_mirror, DepKind.other_other]

/-- The commands for the mirrored usage are the same, but additions of the two kinds are made in the
other order. -/
theorem sequence_mirror_perm :
    ((u.mirror.missing e.mirror).sequence u.mirror).Perm ((u.missing e).sequence u) := by
  have hremovals : u.mirror.proxies.filterMap (u.mirror.missing e.mirror).removal? =
      u.proxies.filterMap (u.missing e).removal? := by
    simp only [mirror, List.filterMap_map]
    congr 1
    funext p
    exact removal?_mirror p
  simp only [ImportDiff.sequence, addition?_mirror, hremovals, DepKind.other]
  exact List.perm_append_comm.append_right _

end Usage

/-- The commands for the file of a path, however often each occurs and whatever the spelling. -/
def received (cs : List PlacedCommand) (path : ModulePath) : Multiset Command :=
  ((cs.filter fun c => c.path.Same path).map (·.command) : List Command)

variable {cs ds : List PlacedCommand}

/-- Neither the order of commands nor the spelling of their paths matters to a file. -/
theorem received_perm (h : (cs.map (·.inFile)).Perm (ds.map (·.inFile))) (path : ModulePath) :
    received cs path = received ds path := by
  have hinFile : ∀ l : List PlacedCommand, received l path =
      (((l.map (·.inFile)).filter fun c => c.1 = path.components).map (·.2) : List Command) := by
    intro l
    rw [List.filter_map, List.map_map]
    rfl
  rw [hinFile, hinFile]
  exact Multiset.coe_eq_coe.mpr ((h.filter _).map _)

/-- Grouping keeps every command in its file, as often as it occurs. -/
theorem EditPlan.received_toList_ofList (cs : List PlacedCommand) (path : ModulePath) :
    received (ofList cs).toList path = received cs path :=
  received_perm (perm_toList_ofList cs) path

theorem Reconciliation.mismatch_mirror {u : Usage} {generated : RepoSet} {e : PerKind RepoSet}
    (m : Mismatch) :
    (⟨u.mirror, generated, e.mirror⟩ : Reconciliation).mismatch m.mirror =
      (⟨u, generated, e⟩ : Reconciliation).mismatch m := by
  have heither : ∀ p : PerKind RepoSet, p.mirror.either = p.either := by
    intro p
    ext n
    simp only [PerKind.mem_either, PerKind.get_mirror]
    constructor
    · rintro ⟨k, hn⟩
      exact ⟨k.other, hn⟩
    · rintro ⟨k, hn⟩
      exact ⟨k.other, k.other_other.symm ▸ hn⟩
  cases m <;> simp only [Mismatch.mirror, mismatch, actual, Usage.imported_mirror, heither] <;> rfl

namespace Declaration

variable {d : Declaration} {u : Usage} {generated : RepoSet}

theorem exists_failure_mirror_iff {c : FailureClass} :
    (∃ err, d.mirror.repair? u.mirror generated = .error err ∧ err.failureClass = c) ↔
      ∃ err, d.repair? u generated = .error err ∧ err.failureClass = c := by
  simp only [exists_failure_iff]
  rw [DepKind.other_involutive.surjective.exists, PerKind.mirror_involutive.surjective.exists]
  simp only [listsUnknown_mirror_iff, DepKind.other_other, expected_mirror_iff,
    Usage.covers_mirror_iff]

theorem repair?_mirror_eq_none_iff :
    d.mirror.repair? u.mirror generated = .ok none ↔ d.repair? u generated = .ok none := by
  have hopinion : d.mirror.opinion = .none ↔ d.opinion = .none := by
    cases ho : d.opinion <;> simp [mirror, Opinion.mirror, ho]
  simp only [repair?_eq_none_iff, hopinion]
  rw [PerKind.mirror_involutive.surjective.exists]
  simp only [expected_mirror_iff, Usage.imported_mirror,
    PerKind.mirror_involutive.injective.eq_iff]

/-- The other kind is the mirror image of a kind: a declaration is accepted just when its mirror
image is, repairs fail in the same class and are needed for the same usages up to mirroring, and
they give each file the same commands and report the same repositories, those imported as the wrong
kind in each other's group. -/
theorem repair?_mirror (d : Declaration) (u : Usage) (generated : RepoSet) :
    (∀ deps devDeps flag,
        validate devDeps deps flag = .ok d.mirror ↔ validate deps devDeps flag = .ok d) ∧
      (∀ r, ofRecord r.mirror = .ok d.mirror ↔ ofRecord r = .ok d) ∧
      (∀ c, (∃ err, d.mirror.repair? u.mirror generated = .error err ∧ err.failureClass = c) ↔
        ∃ err, d.repair? u generated = .error err ∧ err.failureClass = c) ∧
      (d.mirror.repair? u.mirror generated = .ok none ↔ d.repair? u generated = .ok none) ∧
      ∀ f f', d.repair? u generated = .ok (some f) →
        d.mirror.repair? u.mirror generated = .ok (some f') →
        (∀ path, received f'.commands.toList path = received f.commands.toList path) ∧
          ∃ r r', f.warning.message = Reconciliation.message r ∧
            f'.warning.message = Reconciliation.message r' ∧
            (∃ e, d.expected generated = .ok (some e) ∧
              Reconciliation.make u generated e = .ok r ∧
              d.mirror.expected generated = .ok (some e.mirror) ∧
              Reconciliation.make u.mirror generated e.mirror = .ok r') ∧
            ∀ m, r'.mismatch m.mirror = r.mismatch m := by
  refine ⟨fun _ _ _ => validate_mirror_iff, fun _ => ofRecord_mirror_iff,
    fun _ => exists_failure_mirror_iff, repair?_mirror_eq_none_iff, ?_⟩
  intro f f' hf hf'
  obtain ⟨e, he, hc, -⟩ := exists_repair_iff.mp ⟨f, hf⟩
  have he' := expected_mirror_iff.mpr he
  have hc' := Usage.covers_mirror_iff.mpr hc
  refine ⟨?_, ⟨u, generated, e⟩, ⟨u.mirror, generated, e.mirror⟩, message_of_repair? he hf,
    message_of_repair? he' hf', ⟨e, he, Reconciliation.make_eq_ok_iff.mpr ⟨hc, rfl⟩, he',
    Reconciliation.make_eq_ok_iff.mpr ⟨hc', rfl⟩⟩, Reconciliation.mismatch_mirror⟩
  intro path
  rw [(of_repair?_eq_some he hf).2.2, (of_repair?_eq_some he' hf').2.2]
  simp only [EditPlan.received_toList_ofList]
  exact received_perm (Usage.sequence_mirror_perm.map _) path

/-- The mirror images of both additions come in the other order. -/
theorem repair?_mirror_of_mixedUsage :
    ∃ f f', mixedDeclaration.repair? mixedUsage mixedGenerated = .ok (some f) ∧
      mixedDeclaration.mirror.repair? mixedUsage.mirror mixedGenerated = .ok (some f') ∧
      f'.commands ≠ f.commands ∧
      ∀ path, received f'.commands.toList path = received f.commands.toList path := by
  have hc : mixedUsage.Covers mixedExpected := by decide
  obtain ⟨f, hf, hcommands⟩ := exists_repair mixedDeclaration_expected hc (by decide)
  obtain ⟨f', hf', hcommands'⟩ := exists_repair
    (expected_mirror_iff.mpr mixedDeclaration_expected) (Usage.covers_mirror_iff.mpr hc) (by decide)
  obtain ⟨hreceived, -⟩ :=
    (repair?_mirror mixedDeclaration mixedUsage mixedGenerated).2.2.2.2 f f' hf hf'
  refine ⟨f, f', hf, hf', ?_, hreceived⟩
  rw [hcommands, hcommands']
  decide

end Declaration

end ImportRepair
