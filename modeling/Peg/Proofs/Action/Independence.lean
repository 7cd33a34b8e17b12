import Peg.Proofs.Action.Journal
import Peg.Proofs.Action.Variables

/-!
# What an action does not depend on

An action does the same whatever the journals of its stack hold: it cannot see them.
An action that uses no rule variables leaves them as they are.  An action that does not
ask whether the parse is being repaired does the same in both passes.

Main results:

- `Workspace.run_rejournal`: the journals do not matter to an action.
- `Workspace.vars_run`: an action without variables leaves them alone.
-/

namespace Peg

variable {V α : Type}

/-! ## Journals -/

namespace Workspace

/-- The workspace with other journals. -/
def rejournal (space : Workspace V) (journals : List (List (Undo V))) : Workspace V :=
  { space with stack := { space.stack with journals := journals } }

theorem perform_rejournal (space : Workspace V) (journals : List (List (Undo V))) (op : Op V) :
    ∃ journals', (space.rejournal journals).perform op =
      ((space.perform op).1, (space.perform op).2.rejournal journals') := by
  rcases space with ⟨⟨values, old⟩, vars⟩
  cases op with
  | push value => exact ⟨_, rfl⟩
  | pushAt down value =>
      by_cases hdown : down ≤ values.length
      · refine ⟨Stack.enter (.remove down) journals, ?_⟩
        simp [perform, update, rejournal, Stack.pushAt, Stack.size, hdown, Stack.change, Except.map]
      · refine ⟨journals, ?_⟩
        simp [perform, update, rejournal, Stack.pushAt, Stack.size, hdown, Except.map]
  | popAt down =>
      simp only [perform, rejournal, Stack.popAt, Stack.size]
      split
      next => exact ⟨_, rfl⟩
      next => exact ⟨journals, rfl⟩
  | pokeAt down value =>
      simp only [perform, rejournal, Stack.pokeAt, Stack.size]
      split
      next => exact ⟨_, rfl⟩
      next => exact ⟨journals, rfl⟩
  | dup =>
      simp only [perform, rejournal, Stack.dup]
      split
      next => exact ⟨_, rfl⟩
      next => exact ⟨journals, rfl⟩
  | reverseTop count =>
      by_cases hcount : count ≤ values.length
      · refine ⟨Stack.enter (.reverse count) journals, ?_⟩
        simp [perform, update, rejournal, Stack.reverseTop, Stack.size, hcount, Stack.change,
          Except.map]
      · refine ⟨journals, ?_⟩
        simp [perform, update, rejournal, Stack.reverseTop, Stack.size, hcount, Except.map]
  | peekAt down | values | get index kind | set index kind content | take index kind =>
      exact ⟨journals, rfl⟩

/-- The journals do not matter to an action. -/
theorem run_rejournal (program : Program V α) (space : Workspace V)
    (journals : List (List (Undo V))) :
    ∃ journals', program.run (space.rejournal journals) =
      ((program.run space).1, (program.run space).2.rejournal journals') := by
  induction program generalizing space journals with
  | done result => exact ⟨journals, rfl⟩
  | fail error => exact ⟨journals, rfl⟩
  | perform op next ih =>
      rcases space.perform_rejournal journals op with ⟨journals', hop⟩
      simp only [Program.run, hop]
      exact ih (space.perform op).1 (space.perform op).2 journals'

end Workspace

/-! ## Variables -/

/-- Whether an operation looks at or changes a rule variable. -/
def Op.usesVariable : Op V → Bool
  | get .. | set .. | take .. => true
  | _ => false

/-- The program uses no rule variables, whatever its operations answer. -/
def Program.VariableFree : Program V α → Prop
  | done _ | fail _ => True
  | perform op next => op.usesVariable = false ∧ ∀ answer, (next answer).VariableFree

/-- The action uses no rule variables, whatever was matched. -/
def Action.VariableFree (action : Action V) : Prop :=
  ∀ view, (action view).VariableFree

namespace Workspace

theorem vars_perform {op : Op V} (h : op.usesVariable = false) (space : Workspace V) :
    (space.perform op).2.vars = space.vars := by
  cases op with
  | get | set | take => cases h
  | push | peekAt | values => rfl
  | pushAt | popAt | pokeAt | dup | reverseTop => exact space.vars_update _

/-- An action without variables leaves them alone. -/
theorem vars_run {program : Program V α} (h : program.VariableFree) (space : Workspace V) :
    (program.run space).2.vars = space.vars := by
  induction program generalizing space with
  | done result => rfl
  | fail error => rfl
  | perform op next ih =>
      rw [← space.vars_perform h.1]
      exact ih (space.perform op).1 (h.2 _) (space.perform op).2

end Workspace

/-! ## The pass -/

/-- The action does not ask whether the parse is being repaired. -/
def Action.IgnoresRecovery (action : Action V) : Prop :=
  ∀ view inRecovery, action { view with inRecovery := inRecovery } = action view

end Peg
