import Peg.Proofs.Action.Variables

/-!
# Actions on plain data

What an action does, told without journals, probes and tables of slots: the values
are a list, and the variables of the rule being matched are a map.  An operation that
fails changes nothing.

Main results:

- `Workspace.perform_memory`: an operation on a workspace is the operation on what the
  workspace holds.
- `Workspace.runOn_memory`: the same for a whole action.
-/

namespace Peg

variable {V α : Type}

/-! ## Memory -/

/-- What actions work on, as plain data. -/
structure Memory (V : Type) where
  /-- The values, topmost first. -/
  values : List V
  /-- The variables of the rule being matched. -/
  vars : Nat → Option (Cell (VarKind.Carrier V))

namespace Memory

/-- No variable is set. -/
def fresh (memory : Memory V) : Memory V :=
  { memory with vars := fun _ => none }

/-- Perform an operation. -/
def perform (memory : Memory V) : (op : Op V) → op.Answer × Memory V
  | .push value => ((), { memory with values := value :: memory.values })
  | .pushAt down value =>
    if down ≤ memory.values.length then
      (.ok (), { memory with values := memory.values.insertIdx down value })
    else (.error (.underflow .pushAt down memory.values.length), memory)
  | .peekAt down =>
    match memory.values[down]? with
    | some value => (.ok value, memory)
    | none => (.error (.noValueAt .peek down memory.values.length), memory)
  | .popAt down =>
    match memory.values[down]? with
    | some value => (.ok value, { memory with values := memory.values.eraseIdx down })
    | none => (.error (.noValueAt .pop down memory.values.length), memory)
  | .pokeAt down value =>
    match memory.values[down]? with
    | some previous => (.ok previous, { memory with values := memory.values.set down value })
    | none => (.error (.noValueAt .poke down memory.values.length), memory)
  | .dup =>
    match memory.values with
    | value :: values => (.ok (), { memory with values := value :: value :: values })
    | [] => (.error (.underflow .dup 1 0), memory)
  | .reverseTop count =>
    if count ≤ memory.values.length then
      (.ok (), { memory with
        values := (memory.values.take count).reverse ++ memory.values.drop count })
    else (.error (.underflow .swap count memory.values.length), memory)
  | .values => (memory.values.reverse, memory)
  | .get index kind => ((memory.vars index).bind (Cell.read? kind), memory)
  | .set index kind content =>
    ((), { memory with vars := Function.update memory.vars index (some ⟨kind, content⟩) })
  | .take index kind =>
    ((memory.vars index).bind (Cell.read? kind),
      { memory with vars := Function.update memory.vars index none })

end Memory

/-- Run a program on plain data. -/
def Program.runOn : Program V α → Memory V → Except ActionError α × Memory V
  | done result, memory => (.ok result, memory)
  | fail error, memory => (.error error, memory)
  | perform op next, memory =>
    let (answer, memory) := memory.perform op
    (next answer).runOn memory

/-! ## Workspaces -/

namespace Workspace

/-- What a workspace holds. -/
def memory (space : Workspace V) : Memory V :=
  ⟨space.stack.values, space.vars.view⟩

/-- An operation on a workspace is the operation on what the workspace holds. -/
theorem perform_memory (space : Workspace V) (h : space.vars.Valid) (op : Op V) :
    space.memory.perform op = ((space.perform op).1, (space.perform op).2.memory) := by
  cases op with
  | push value => rfl
  | pushAt down value =>
      by_cases hdown : down ≤ space.stack.values.length
      · simp [Memory.perform, perform, memory, update, Stack.pushAt, Stack.size, hdown,
          Stack.change, Except.map]
      · simp [Memory.perform, perform, memory, update, Stack.pushAt, Stack.size, hdown,
          Except.map]
  | peekAt down =>
      cases hvalue : space.stack.values[down]? <;>
        simp [Memory.perform, perform, memory, Stack.peekAt, Stack.size, hvalue]
  | popAt down =>
      cases hvalue : space.stack.values[down]? <;>
        simp [Memory.perform, perform, memory, update, Stack.popAt, Stack.size, hvalue,
          Stack.change]
  | pokeAt down value =>
      cases hvalue : space.stack.values[down]? <;>
        simp [Memory.perform, perform, memory, update, Stack.pokeAt, Stack.size, hvalue,
          Stack.change]
  | dup =>
      cases hvalues : space.stack.values <;>
        simp [Memory.perform, perform, memory, update, Stack.dup, Stack.push, hvalues,
          Stack.change, Except.map]
  | reverseTop count =>
      by_cases hcount : count ≤ space.stack.values.length
      · simp [Memory.perform, perform, memory, update, Stack.reverseTop, Stack.size, hcount,
          reverseFirst, Stack.change, Except.map]
      · simp [Memory.perform, perform, memory, update, Stack.reverseTop, Stack.size, hcount,
          Except.map]
  | values => rfl
  | get index kind => simp [Memory.perform, perform, memory, Locals.get?_eq_view]
  | set index kind content => simp [Memory.perform, perform, memory, Locals.view_set h]
  | take index kind =>
      simp [Memory.perform, perform, memory, Locals.take, Locals.get?_eq_view,
        Locals.view_erase h]

/-- An action on a workspace is the action on what the workspace holds. -/
theorem runOn_memory (program : Program V α) (space : Workspace V) (h : space.vars.Valid) :
    program.runOn space.memory = ((program.run space).1, (program.run space).2.memory) := by
  induction program generalizing space with
  | done result => rfl
  | fail error => rfl
  | perform op next ih =>
      have hstep := space.perform_memory h op
      have hvalid := (space.callers_perform h op).1
      simp only [Program.runOn, Program.run, hstep]
      exact ih (space.perform op).1 (space.perform op).2 hvalid

end Workspace

end Peg
