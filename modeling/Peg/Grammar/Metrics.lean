import Peg.Grammar.Check

/-!
# Sizes of grammars

Counts that describe a grammar.
-/

namespace Peg

/-- Counts that describe a grammar. -/
structure GrammarMetrics where
  /-- Number of rules. -/
  ruleCount : Nat
  /-- Number of rules that may match without consuming input. -/
  nullableCount : Nat
  /-- Number of rules whose mismatches are remembered. -/
  memoizedCount : Nat
  /-- Number of actions in all bodies. -/
  actionCount : Nat
  /-- Deepest nesting of expressions in a body. -/
  maxNesting : Nat
  deriving DecidableEq, Repr

/-- The counts of a grammar. -/
def Grammar.metrics {V : Type} (grammar : Grammar V) : GrammarMetrics :=
  let rules := grammar.rules.toList
  { ruleCount := rules.length
    nullableCount := (Check.known rules).count true
    memoizedCount := rules.countP (·.options.memoMismatches)
    actionCount := (rules.flatMap (·.body.subterms)).countP Expr.isAction
    maxNesting := (rules.map (·.body.nesting)).foldl max 0 }

end Peg
