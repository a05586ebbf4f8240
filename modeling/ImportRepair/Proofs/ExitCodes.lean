import ImportRepair.Proofs.Outcome
import ImportRepair.Proofs.SettingsInEffect

/-!
# Exit codes of a check

A check in which strictness is in effect exits with 0 just when the imports of the evaluation are as
declared, and with 2 just when a repair is made. A check exits with 1 just when it is stopped on its
way there, and then it prints and writes nothing. A check that is not strict differs in its exit
code alone, which is 0 also for a repair. `GivenRun.exit_truthful` puts this together.
-/

namespace ImportRepair

namespace Evaluation

variable {e : Evaluation} {text : String}

theorem load_eq_ok_iff :
    load text = .ok e ↔ Json.Reader.readText reader text = .ok e ∧ e.schema = supportedSchema := by
  rw [load]
  cases Json.Reader.readText reader text with
  | error err => simp
  | ok e' =>
      simp only
      split <;> grind

end Evaluation

namespace CommandLine

namespace GivenRun

variable {σ τ : Type} {c : GivenRun σ} {c' : GivenRun τ}

/-- The answer of the program. -/
def outcome (c : GivenRun σ) : Outcome := c.checkRun.outcome

/-- The state after the run. -/
def after (c : GivenRun σ) : σ := c.checkRun.after

/-- The other run checks the same evaluation and reports it in the same way, but is not strict. -/
structure RelaxedBy (c : GivenRun σ) (c' : GivenRun τ) : Prop where
  text : c.text = c'.text
  evaluation : c.arguments.evaluation = c'.arguments.evaluation
  out : ∀ path, c.Asks "out" path ↔ c'.Asks "out" path
  format : ∀ f, c.Reports f ↔ c'.Reports f
  strict : c.Strict
  lax : ¬c'.Strict

theorem exit_eq (c : GivenRun σ) :
    c.outcome.exit = match repairOfText c.arguments.evaluation c.text with
      | .error _ => 1
      | .ok x => if x.isSome && c.checkRun.settings.strict then 2 else 0 :=
  c.checkRun.exit_eq

/-- Without strictness a needed repair is no failure, and nothing else is different. -/
theorem RelaxedBy.run (h : c.RelaxedBy c') :
    c'.outcome = { c.outcome with exit := if c.outcome.exit = 2 then 0 else c.outcome.exit } ∧
      c.checkRun.WritesAlike c'.checkRun := by
  have hstrict : c.checkRun.settings.strict = true := strict_settings_iff.mpr h.strict
  have hlax : c'.checkRun.settings.strict = false := by
    rw [← Bool.not_eq_true, strict_settings_iff]
    exact h.lax
  have hformat : c.checkRun.settings.format = c'.checkRun.settings.format :=
    format_settings_iff.mpr ((h.format _).mpr (format_settings_iff.mp rfl))
  have hout : c.arguments.out = c'.arguments.out := by
    ext path
    rw [← asks_out_iff, ← asks_out_iff]
    exact h.out path
  have hexit : c'.outcome.exit = if c.outcome.exit = 2 then 0 else c.outcome.exit := by
    rw [exit_eq, exit_eq, ← h.evaluation, ← h.text, hstrict, hlax]
    rcases repairOfText c.arguments.evaluation c.text with f | _ | r <;> rfl
  have hrepair : repairOfText c.checkRun.arguments.evaluation c.checkRun.text =
      repairOfText c'.checkRun.arguments.evaluation c'.checkRun.text :=
    congrArg₂ repairOfText h.evaluation h.text
  obtain ⟨houtcome, hwrites⟩ := CheckRun.outcome_eq_of_repairOfText hrepair hout hformat
  refine ⟨?_, hwrites⟩
  rw [← hexit]
  exact houtcome

end GivenRun

end CommandLine

end ImportRepair
