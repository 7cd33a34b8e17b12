/-!
# Settings of a parse

What can be chosen about how a text is parsed.
-/

namespace Peg

/-- Settings of a parse. -/
structure Settings where
  /-- Whether mismatches of the rules that ask for it are remembered. -/
  memoization : Bool := true
  /-- Number of mismatches remembered before all of them are forgotten. -/
  maxMemoEntries : Nat := 100000
  /-- Whether a text that does not match is parsed again with repairs. -/
  recovery : Bool := false
  /-- Number of repairs allowed. -/
  maxRecoveredErrors : Nat := 100
  /-- Number of rule invocations that may be nested in one another. -/
  maxDepth : Nat := 256
  /-- Whether a parse tree is built. -/
  buildParseTree : Bool := false
  /-- Whether events are meant for a trace. -/
  traceEvents : Bool := false
  deriving DecidableEq, Repr, Inhabited

end Peg
