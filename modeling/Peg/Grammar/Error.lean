import Peg.Text.Quoted

/-!
# Errors of grammars

Why a set of rules is not accepted as a grammar.
-/

namespace Peg

/-- What is wrong with a set of rules. -/
inductive GrammarError where
  /-- A rule is named but has no body. -/
  | undefinedRule (name : String)
  /-- A rule is given a second body. -/
  | duplicateRule (name : String)
  /-- A reference to a rule that does not exist. -/
  | unknownRule (rule : String) (id : Nat)
  /-- A repetition whose body can match without consuming input. -/
  | emptyLoop (rule : String)
  /-- Rules that reach themselves without consuming input, each followed by one
  that it may invoke first. -/
  | leftRecursion (cycle : List String)
  /-- A character range whose ends are in the wrong order. -/
  | invalidCharRange (rule : String) (low high : Char)
  deriving DecidableEq, Repr

namespace GrammarError

/-- The message of an error. -/
def message : GrammarError → String
  | undefinedRule name => "rule `" ++ name ++ "` is referenced but never defined"
  | duplicateRule name => "rule `" ++ name ++ "` is defined more than once"
  | unknownRule rule id => "rule `" ++ rule ++ "` refers to unknown rule id " ++ toString id
  | emptyLoop rule => "repetition in rule `" ++ rule ++ "` can match the empty string"
  | leftRecursion cycle => "left recursion: " ++ String.intercalate " -> " cycle
  | invalidCharRange rule low high =>
    "character range " ++ Text.quoteChar low ++ ".." ++ Text.quoteChar high ++ " in rule `" ++
      rule ++ "` is empty"

/-- The code that names the kind of an error. -/
def code : GrammarError → String
  | undefinedRule _ => "grammar::undefined_rule"
  | duplicateRule _ => "grammar::duplicate_rule"
  | unknownRule .. => "grammar::unknown_rule"
  | emptyLoop _ => "grammar::empty_loop"
  | leftRecursion _ => "grammar::left_recursion"
  | invalidCharRange .. => "grammar::invalid_char_range"

/-- Advice on how to mend the rules, for the errors that have some. -/
def help? : GrammarError → Option String
  | emptyLoop _ => some "make the repeated expression consume at least one character"
  | leftRecursion _ => some "rewrite the rule with repetition or right recursion"
  | _ => none

end GrammarError

end Peg
