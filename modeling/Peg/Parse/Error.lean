import Peg.Action.Error
import Peg.Text.Source

/-!
# Aborted parses

Why a parse ends without an answer.
-/

namespace Peg

open Text

/-- Why a parse was aborted. -/
inductive ParseError where
  /-- An action failed in a rule. -/
  | action (rule : String) (position : Position) (source : ActionError)
  /-- Rule invocations are nested too deeply. -/
  | recursionLimit (limit : Nat) (position : Position)
  /-- The rule to start from does not exist. -/
  | unknownRoot (id : Nat)
  deriving DecidableEq, Repr

namespace ParseError

/-- The message of an error. -/
def message : ParseError → String
  | action rule position source =>
    "action in rule `" ++ rule ++ "` failed at " ++ toString position ++ ": " ++ source.message
  | recursionLimit limit position =>
    "recursion limit of " ++ toString limit ++ " rule invocations exceeded at " ++
      toString position
  | unknownRoot id => "rule id " ++ toString id ++ " is not part of this grammar"

/-- The code that names the kind of an error. -/
def code : ParseError → String
  | action .. => "parser::action"
  | recursionLimit .. => "parser::recursion_limit"
  | unknownRoot _ => "parser::unknown_root"

/-- Advice on how to mend the parse, for the errors that have some. -/
def help? : ParseError → Option String
  | recursionLimit .. => some "raise ParserConfig::max_depth or reduce nesting in the input"
  | _ => none

/-- The error of the action that failed. -/
def cause? : ParseError → Option ActionError
  | action _ _ source => some source
  | _ => none

/-- Where the parse was aborted. -/
def position? : ParseError → Option Position
  | action _ position _ => some position
  | recursionLimit _ position => some position
  | unknownRoot _ => none

end ParseError

end Peg
