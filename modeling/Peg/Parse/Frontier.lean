import Peg.Grammar.Basic

/-!
# The error frontier

A failed parse is reported at the frontier, the furthest offset at which
anything failed to match, together with what was tried there.  A rule or label
that fails without anything in it getting past its start stands for all that was
tried in it.

Main results:

- `position_record` and `le_position_recordNamed`: the frontier only moves
  forwards.
- `recordNamed_of_lt`: a rule that starts behind the frontier adds nothing.
-/

namespace Peg

/-- Something that was tried and did not match. -/
inductive Expected (V : Type) where
  | rule (id : RuleId)
  | label (name : String)
  | terminal (e : Expr V)
  | endOfInput

/-- What was tried, as it is named in messages. -/
def Expected.describe {V : Type} (grammar : Grammar V) : Expected V → String
  | rule id => grammar.ruleName id
  | label name => name
  | terminal e => e.describe grammar.ruleName
  | endOfInput => "EOI"

/-- The furthest offset at which anything failed, and what was tried there. -/
structure Frontier (V : Type) where
  /-- The offset. -/
  position : Nat
  /-- What was tried at the offset, latest first. -/
  tried : List (Expected V)

namespace Frontier

variable {V : Type}

/-- Nothing tried yet. -/
def empty : Frontier V :=
  ⟨0, []⟩

instance : Inhabited (Frontier V) :=
  ⟨empty⟩

/-- Note that something failed at an offset. -/
def record (frontier : Frontier V) (offset : Nat) (expected : Expected V) : Frontier V :=
  if frontier.position < offset then ⟨offset, [expected]⟩
  else if offset = frontier.position then ⟨offset, expected :: frontier.tried⟩
  else frontier

/-- Note that a rule or label failed which started at an offset, when the
frontier was `before`.  If nothing got past its start, it takes the place of what
has been tried there since. -/
def recordNamed (frontier : Frontier V) (start : Nat) (before : Frontier V)
    (expected : Expected V) : Frontier V :=
  if start < frontier.position then frontier
  else ⟨start, expected :: if before.position = start then before.tried else []⟩

/-- The names of what was tried, earliest first, each once. -/
def labels (grammar : Grammar V) (frontier : Frontier V) : List String :=
  (frontier.tried.reverse.map (Expected.describe grammar)).eraseDups

/-- A failure moves the frontier to its offset, unless it is behind. -/
theorem position_record (frontier : Frontier V) (offset : Nat) (expected : Expected V) :
    (frontier.record offset expected).position = max frontier.position offset := by
  unfold record
  split
  next h => exact (Nat.max_eq_right (Nat.le_of_lt h)).symm
  next h =>
    split
    next same => exact (Nat.max_eq_right (Nat.le_of_eq same.symm)).symm ▸ rfl
    next => exact (Nat.max_eq_left (Nat.not_lt.1 h)).symm

/-- A failed rule never moves the frontier back. -/
theorem le_position_recordNamed (frontier : Frontier V) (start : Nat) (before : Frontier V)
    (expected : Expected V) :
    frontier.position ≤ (frontier.recordNamed start before expected).position := by
  unfold recordNamed
  split
  next => exact Nat.le_refl _
  next h => exact Nat.not_lt.1 h

/-- A rule that starts behind the frontier adds nothing. -/
theorem recordNamed_of_lt {frontier : Frontier V} {start : Nat} (h : start < frontier.position)
    (before : Frontier V) (expected : Expected V) :
    frontier.recordNamed start before expected = frontier := by
  simp [recordNamed, h]

end Frontier

end Peg
