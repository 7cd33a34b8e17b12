/-!
# Statistics of a parse

Counts of what a parse did.

Main results:

- `merge_empty`, `empty_merge`, `merge_assoc`: merging counts is associative and
  has the empty counts as its unit.
-/

namespace Peg

/-- Counts of what a parse did. -/
structure Stats where
  /-- Rule bodies evaluated. -/
  ruleCalls : Nat
  /-- Alternatives tried after the first of their choice. -/
  backtracks : Nat
  /-- Rule invocations known not to match. -/
  memoHits : Nat
  /-- Rule invocations that were looked up and not known. -/
  memoMisses : Nat
  /-- Actions run. -/
  actionsRun : Nat
  /-- Deepest nesting of rule invocations. -/
  maxDepth : Nat
  /-- Missing terminals stood in for. -/
  recoveredErrors : Nat
  deriving DecidableEq, Repr, Inhabited

namespace Stats

/-- Nothing done. -/
def empty : Stats :=
  ⟨0, 0, 0, 0, 0, 0, 0⟩

/-- What two parses did together: counts add up, and the deeper nesting counts. -/
def merge (a b : Stats) : Stats where
  ruleCalls := a.ruleCalls + b.ruleCalls
  backtracks := a.backtracks + b.backtracks
  memoHits := a.memoHits + b.memoHits
  memoMisses := a.memoMisses + b.memoMisses
  actionsRun := a.actionsRun + b.actionsRun
  maxDepth := max a.maxDepth b.maxDepth
  recoveredErrors := a.recoveredErrors + b.recoveredErrors

/-- The counts after each of several merges, starting from nothing. -/
def mergeAll (total : Stats) : List Stats → List Stats
  | [] => []
  | stats :: rest => total.merge stats :: mergeAll (total.merge stats) rest

@[simp] theorem merge_empty (a : Stats) : a.merge empty = a := by
  simp [merge, empty]

@[simp] theorem empty_merge (a : Stats) : empty.merge a = a := by
  simp [merge, empty]

/-- Merging is associative. -/
theorem merge_assoc (a b c : Stats) : (a.merge b).merge c = a.merge (b.merge c) := by
  simp [merge, Nat.add_assoc, Nat.max_assoc]

end Stats

end Peg
