import Mathlib
import Peg.Proofs.Repair.Reached

/-!
# What an evaluation closes again

An expression opens things before it evaluates its parts: a probe, a rule invocation with
variables of its own, a label, a suppression of nodes, a commitment, a round of a choice.
By the time it has matched or not, each of them is closed again, on whichever way it ended.

Main results:

- `Machine.Frame.brackets`: what is open at the end of a stretch of a parse is what was open
  at its start.
- `Reached.expr_brackets`: so it is for every expression, wherever a pass gets to; and what
  does not match leaves the reading head and the nodes as they were.
-/

namespace Peg

open Text

variable {V : Type}

/-- The same things are open at two machines: rule invocations with their variables, but for
those of the innermost one, lookaheads, labels, suppressions, commitment and switch for
repairs. -/
structure Machine.Brackets (m left : Machine V) : Prop where
  depth : left.depth = m.depth
  probes : left.probes = m.probes
  stackProbes : left.stack.probes = m.stack.probes
  rule? : left.rule? = m.rule?
  scopes : left.scopes = m.scopes
  frames : left.vars.frames = m.vars.frames
  callers : left.vars.callers = m.vars.callers
  suppressed : left.suppressed = m.suppressed
  committed : left.committed = m.committed
  mayInsert : left.mayInsert = m.mayInsert

variable {env : Env V} {root : RuleId} {a : Nat} {task : Task V} {m left : Machine V}

/-- What is open at the end of a stretch of a parse is what was open at its start. -/
theorem Machine.Frame.brackets (h : m.Frame env left) : m.Brackets left where
  depth := h.depth
  probes := h.probes
  stackProbes := h.tracks.probes_eq
  rule? := h.rule?
  scopes := h.scopes
  frames := h.callers.frames_eq
  callers := h.callers.callers_eq
  suppressed := h.suppressed
  committed := h.committed
  mayInsert := h.mayInsert

/-- Wherever a pass gets to, an expression that matches or does not match there has closed
all that it opened.  If it does not match, the reading head and the nodes are back where
they were; if it matches, the reading head has not gone back and nodes have only been
added. -/
theorem Reached.expr_brackets (h : Reached env root a task m) (allowance : Nat) (e : Expr V)
    {verdict : Verdict} (hrun : (Task.expr e).run env allowance m = (verdict, left)) :
    ((∀ error, verdict ≠ .aborted error) → m.Brackets left) ∧
      (verdict = .mismatched → left.cursor = m.cursor ∧ left.nodes = m.nodes) ∧
      (verdict = .matched → m.offset ≤ left.offset ∧ m.nodes <:+ left.nodes) := by
  have hframed := Task.framed_expr h.valid hrun
  cases verdict with
  | matched =>
      have hframe : m.Frame env left := hframed
      exact ⟨fun _ => hframe.brackets, nofun, fun _ => ⟨hframe.offset_le, hframe.nodes⟩⟩
  | mismatched =>
      have hframe : m.Frame env left := hframed
      exact ⟨fun _ => hframe.brackets, fun _ => Eval.expr_mismatched hrun, nofun⟩
  | aborted error => exact ⟨fun hends => absurd rfl (hends error), nofun, nofun⟩

/-- A grammar of words in parentheses. -/
def enclosed : Grammar Nat where
  rules := #[
    ⟨"enclosed", .seq [.char '(', .rule ⟨1⟩, .char ')'], {}⟩,
    ⟨"word", .seq [.char 'a', .notAhead (.char '!'), .label "tail" (.char 'b')],
      { suppressSubnodes := true }⟩]

/-- A first pass over a word that breaks off. -/
def enclosedFirst : Env Nat :=
  ⟨enclosed, .plain ['(', 'a', 'c', ')'], { buildParseTree := true }, .first⟩

theorem Reached.expr_brackets_enclosed :
    ∃ m left,
      Reached enclosedFirst ⟨0⟩ 254
        (.expr (.seq [.char 'a', .notAhead (.char '!'), .label "tail" (.char 'b')])) m ∧
      (m.depth = 2 ∧ m.suppressed = 1 ∧ m.committed = true) ∧
      (Task.expr (.seq [.char 'a', .notAhead (.char '!'), .label "tail" (.char 'b')])).run
        enclosedFirst 254 m = (.mismatched, left) ∧
      m.Brackets left ∧ left.cursor = m.cursor ∧ left.nodes = m.nodes := by
  have hbody : Reached enclosedFirst ⟨0⟩ 255 _ _ := .part (.part .start (.body rfl rfl)) .seq
  have hrest := Reached.part hbody (.part_next rfl rfl)
  have hword : Reached enclosedFirst ⟨0⟩ 254 _ _ :=
    .part (.part (.part hrest (.part rfl)) .rule) (.body rfl rfl)
  have hrun := hword.expr_brackets 254
    (.seq [.char 'a', .notAhead (.char '!'), .label "tail" (.char 'b')]) rfl
  exact ⟨_, _, hword, ⟨rfl, rfl, rfl⟩, rfl, hrun.1 nofun, hrun.2.1 rfl⟩

end Peg
