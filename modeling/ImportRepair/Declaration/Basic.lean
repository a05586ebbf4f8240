import ImportRepair.Declaration.Error
import ImportRepair.RepoName

/-!
# Declarations of direct dependencies

With a declaration an extension states which repositories the root module should import directly:
it has no opinion, it claims every repository for one kind, or it lists the repositories of both
kinds.

## Implementation notes

Listed names are valid, are listed once and stand in one list only. These facts are part of the
type `DirectDeps`, so a declaration made in any way has them; `validate` decides them and
`fault?_eq_none_iff` says that it decides nothing else.
-/

namespace ImportRepair

/-- Lists of regular and dev names that may stand together in one declaration. -/
structure DirectDeps where
  regular : List String
  dev : List String
  /-- Regular names are valid. -/
  regular_valid : ∀ n ∈ regular, isUserRepoName n = true
  /-- Dev names are valid. -/
  dev_valid : ∀ n ∈ dev, isUserRepoName n = true
  /-- No regular name is repeated. -/
  regular_nodup : regular.Nodup
  /-- No dev name is repeated. -/
  dev_nodup : dev.Nodup
  /-- No dev name is a regular name. -/
  disjoint : ∀ n ∈ dev, n ∉ regular
  deriving DecidableEq

/-- The names of a kind. -/
def DirectDeps.get (d : DirectDeps) : DepKind → List String
  | .regular => d.regular
  | .dev => d.dev

/-- What an extension says about the direct dependencies of the root module. -/
inductive Opinion
  /-- Nothing. -/
  | none
  /-- Every repository is a dependency of one kind. -/
  | all (kind : DepKind)
  /-- The listed repositories are dependencies. -/
  | listed (deps : DirectDeps)
  deriving DecidableEq

/-- A validated declaration. -/
structure Declaration where
  opinion : Opinion
  /-- Whether the extension gives the same repositories each time. -/
  reproducible : Bool
  deriving DecidableEq

/-- The first fault in a list of names. A fault is an invalid name, a name of `others`, or a name
that stands before. -/
def fault? (kind : DepKind) (others : List String) :
    List String → List String → Option DeclarationError
  | _, [] => none
  | before, n :: ns =>
    if isUserRepoName n = false then some (.invalidName kind n)
    else if n ∈ others then some (.crossKind n)
    else if n ∈ before then some (.duplicate kind n)
    else fault? kind others (n :: before) ns

/-- A list without faults has valid names, each once, and none of the others. -/
theorem fault?_eq_none_iff {kind : DepKind} {others before ns : List String} :
    fault? kind others before ns = none ↔
      (∀ n ∈ ns, isUserRepoName n = true) ∧ ns.Nodup ∧ (∀ n ∈ ns, n ∉ others) ∧
        ∀ n ∈ ns, n ∉ before := by
  induction ns generalizing before with
  | nil => simp [fault?]
  | cons n ns ih =>
    simp only [fault?]
    split
    · rename_i h
      simp [h]
    · rename_i hv
      split
      · rename_i h
        simp [h]
      · rename_i ho
        split
        · rename_i h
          simp [h]
        · rename_i hb
          rw [ih]
          simp only [Bool.not_eq_false] at hv
          simp only [List.mem_cons, forall_eq_or_imp, List.nodup_cons, not_or, hv, ho, hb,
            not_false_eq_true, true_and]
          constructor
          · rintro ⟨h₁, h₂, h₃, h₄⟩
            exact ⟨h₁, ⟨fun hn => (h₄ n hn).1 rfl, h₂⟩, h₃, fun m hm => (h₄ m hm).2⟩
          · rintro ⟨h₁, ⟨hn, h₂⟩, h₃, h₄⟩
            exact ⟨h₁, h₂, h₃, fun m hm => ⟨fun h => hn (h ▸ hm), h₄ m hm⟩⟩

/-- Two lists of names as the lists of a declaration; the regular list is looked at first. -/
def DirectDeps.ofLists (regular dev : List String) : Except DeclarationError DirectDeps :=
  match hr : fault? .regular [] [] regular with
  | some e => .error e
  | none =>
    match hd : fault? .dev regular [] dev with
    | some e => .error e
    | none =>
      .ok {
        regular, dev
        regular_valid := (fault?_eq_none_iff.1 hr).1
        dev_valid := (fault?_eq_none_iff.1 hd).1
        regular_nodup := (fault?_eq_none_iff.1 hr).2.1
        dev_nodup := (fault?_eq_none_iff.1 hd).2.1
        disjoint := (fault?_eq_none_iff.1 hd).2.2.1 }

/-- The names of an argument that has to be a list. -/
def Argument.toNames (kind : DepKind) : Argument → Except DeclarationError (List String)
  | .names ns => .ok ns
  | .mixed index got => .error (.notString kind index got)
  | .omitted => .error (.notSequence kind .none)
  | .text _ => .error (.notSequence kind .string)
  | .other got => .error (.notSequence kind got)

/-- Holds for a string, whatever it says. -/
def Argument.isText : Argument → Bool
  | .text _ => true
  | _ => false

namespace Declaration

/-- The declaration of an extension that is reproducible and has no opinion. -/
def reproducibleOnly : Declaration := ⟨.none, true⟩

/-- The opinion that two arguments express. -/
def opinionOf (deps devDeps : Argument) : Except DeclarationError Opinion :=
  if deps = .omitted ∧ devDeps = .omitted then .ok .none
  else if deps = .all ∧ devDeps = .names [] then .ok (.all .regular)
  else if devDeps = .all ∧ deps = .names [] then .ok (.all .dev)
  else if deps = .all ∨ devDeps = .all then .error .allWithSibling
  else if deps.isText ∨ devDeps.isText then .error .unexpectedText
  else if deps = .omitted ∨ devDeps = .omitted then .error .halfOmitted
  else do
    let regular ← deps.toNames .regular
    let dev ← devDeps.toNames .dev
    return .listed (← DirectDeps.ofLists regular dev)

/-- Validate the arguments of a declaration. -/
def validate (deps devDeps : Argument) (reproducible : Bool) :
    Except DeclarationError Declaration := do
  return ⟨← opinionOf deps devDeps, reproducible⟩

end Declaration

end ImportRepair
