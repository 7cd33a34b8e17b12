import Peg.Expr.Basic

/-!
# Events of a parse

What can be observed of a parse while it runs.  Places are byte offsets in the
text that patterns see.
-/

namespace Peg

/-- Something that happened during a parse. -/
inductive Event where
  /-- A rule is about to be matched. -/
  | enter (rule : RuleId) (offset : Nat)
  /-- A rule has been matched or not, and the reading head stands at the
  offset. -/
  | exit (rule : RuleId) (offset : Nat) (matched : Bool)
  /-- A rule was known not to match. -/
  | memoHit (rule : RuleId) (offset : Nat)
  /-- A choice moves on to its next alternative. -/
  | backtrack (offset : Nat)
  /-- The text is parsed again with repairs. -/
  | recoveryPass (errorOffset : Nat)
  /-- A missing terminal is stood in for. -/
  | inserted (offset : Nat)
  deriving DecidableEq, Repr

end Peg
