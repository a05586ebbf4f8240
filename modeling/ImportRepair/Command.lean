import ImportRepair.RepoSet
import ImportRepair.Text.Blank

/-!
# Edit commands

A command tells the editor of module files to add repositories to a proxy or to remove them. Its
text is the action, the label of the proxy and the repositories, with single spaces between them.

## Implementation notes

Texts are read as sequences of words, so any blanks may stand around and between the words. The
repositories form a set: their order and repetition in a text do not matter.
-/

namespace ImportRepair

/-- What a command does to the imports of a proxy. -/
inductive Action
  | add
  | remove
  deriving DecidableEq, Repr

namespace Action

/-- The first word of a command. -/
def keyword : Action → String
  | .add => "use_repo_add"
  | .remove => "use_repo_remove"

/-- The action that a first word stands for. -/
def ofKeyword? (word : String) : Option Action :=
  if word = "use_repo_add" then some .add
  else if word = "use_repo_remove" then some .remove
  else none

@[simp] theorem ofKeyword?_keyword (a : Action) : ofKeyword? a.keyword = some a := by
  cases a <;> decide

theorem ofKeyword?_eq_some_iff {word : String} {a : Action} :
    ofKeyword? word = some a ↔ word = a.keyword := by
  constructor
  · intro h
    simp only [ofKeyword?] at h
    split at h
    · cases h
      assumption
    · split at h
      · cases h
        assumption
      · cases h
  · rintro rfl
    simp

end Action

/-- One edit of the imports of one proxy. -/
structure Command where
  action : Action
  /-- The label of the proxy. -/
  label : String
  /-- The repositories to add or to remove. -/
  repos : RepoSet
  deriving DecidableEq

/-- Why a text is no command. -/
inductive CommandFault
  | empty
  | unknownAction
  | missingLabel
  | noRepositories
  deriving DecidableEq, Repr

/-- The words for a fault. -/
def CommandFault.message : CommandFault → String
  | .empty => "empty command"
  | .unknownAction => "unknown action"
  | .missingLabel => "missing proxy label"
  | .noRepositories => "no repositories"

/-- A text that is no command. -/
structure CommandError where
  /-- The text as it was given. -/
  input : String
  fault : CommandFault
  deriving DecidableEq, Repr

/-- The message shown for a text that is no command. -/
def CommandError.message (e : CommandError) : String :=
  "invalid use_repo command '" ++ e.input ++ "': " ++ e.fault.message

namespace Command

/-- The command that names the repositories of a list. -/
def ofList (action : Action) (label : String) (repos : List String) : Command :=
  ⟨action, label, RepoSet.ofList repos⟩

/-- The text of a command. -/
def text (c : Command) : String :=
  c.action.keyword ++ " " ++ c.label ++ String.join (c.repos.toList.map fun repo => " " ++ repo)

/-- The command that a sequence of words stands for. -/
def ofWords : List String → Except CommandFault Command
  | [] => .error .empty
  | word :: rest =>
    match Action.ofKeyword? word, rest with
    | none, _ => .error .unknownAction
    | some _, [] => .error .missingLabel
    | some _, [_] => .error .noRepositories
    | some action, label :: repos => .ok (ofList action label repos)

/-- Read the text of a command. -/
def parse (text : String) : Except CommandError Command :=
  match ofWords ((words text.toList).map String.ofList) with
  | .ok c => .ok c
  | .error fault => .error ⟨text, fault⟩

end Command

end ImportRepair
