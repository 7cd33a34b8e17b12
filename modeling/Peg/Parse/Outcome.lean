import Peg.Parse.Machine
import Peg.Parse.Report

/-!
# Outcomes of a parse

A parse that runs to its end has matched the whole text, or it has failed at the
error frontier.  A failure may carry what a second, repairing pass made of the
text.
-/

namespace Peg

open Text

/-- The rule matched the whole text. -/
structure Success (V : Type) where
  /-- The end of the text. -/
  stop : Position
  /-- The values on the stack, topmost last. -/
  values : List V
  /-- The parse tree, if one was asked for. -/
  tree? : Option Tree
  /-- What was done. -/
  stats : Stats
  deriving Repr

/-- What a repairing pass made of a text. -/
structure Recovered (V : Type) where
  /-- Where the rule stopped. -/
  stop : Position
  /-- Whether that is the end of the text. -/
  complete : Bool
  /-- The values on the stack, topmost last. -/
  values : List V
  /-- The repairs, in the order they were made. -/
  gaps : List Gap
  /-- The parse tree, if one was asked for. -/
  tree? : Option Tree
  deriving Repr

/-- The text did not match. -/
structure Failure (V : Type) where
  /-- The furthest position at which anything failed to match. -/
  position : Position
  /-- The names of what was tried there. -/
  expected : List String
  /-- The character there, unless it is the end of the text. -/
  found? : Option Char
  /-- The result of the repairing pass, if there was one and it matched. -/
  recovered? : Option (Recovered V)
  /-- What was done. -/
  stats : Stats
  deriving Repr

/-- The answer of a parse. -/
inductive Outcome (V : Type) where
  | succeeded (success : Success V)
  | failed (failure : Failure V)
  deriving Repr

/-- Whether the whole text matched. -/
def Outcome.isSuccess {V : Type} : Outcome V → Bool
  | succeeded _ => true
  | failed _ => false

namespace Failure

variable {V : Type}

/-- What was expected and what was found. -/
def message (failure : Failure V) : String :=
  let found := (failure.found?.map quoteChar).getD "end of input"
  "expected " ++ Report.expectedList failure.expected ++ ", found " ++ found

/-- What was expected, what was found, and where. -/
def display (failure : Failure V) : String :=
  failure.message ++ " at " ++ toString failure.position

/-- The failure with the line of the text it concerns. -/
def render (failure : Failure V) (source : Source) : String :=
  Report.render source failure.position failure.message

end Failure

end Peg
