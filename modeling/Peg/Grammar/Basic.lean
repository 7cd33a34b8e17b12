import Peg.Expr.Basic

/-!
# Grammars

A grammar is a list of named rules.  Rules refer to one another by number, so
recursion needs no cyclic data.

Main results:

- `ruleName_of_rule?`: a rule of the grammar is named by its name.
-/

namespace Peg

/-- How matches and mismatches of a rule are treated. -/
structure RuleOptions where
  /-- Whether mismatches are remembered. -/
  memoMismatches : Bool := false
  /-- Whether the rule and all below it are left out of the parse tree. -/
  suppressNode : Bool := false
  /-- Whether everything below the rule is left out of the parse tree. -/
  suppressSubnodes : Bool := false
  /-- Whether what is below the rule takes the place of the rule in the parse
  tree. -/
  skipNode : Bool := false
  deriving DecidableEq, Repr, Inhabited

namespace RuleOptions

/-- Whether nodes below the rule are dropped. -/
def suppresses (options : RuleOptions) : Bool :=
  options.suppressNode || options.suppressSubnodes

/-- Whether a match of the rule is a node of the parse tree. -/
def buildsNode (options : RuleOptions) : Bool :=
  !options.suppressNode && !options.skipNode

end RuleOptions

/-- A named parsing expression. -/
structure Rule (V : Type) where
  /-- The name. -/
  name : String
  /-- What the rule matches. -/
  body : Expr V
  /-- How its matches and mismatches are treated. -/
  options : RuleOptions
  deriving Inhabited

/-- A list of rules. -/
structure Grammar (V : Type) where
  /-- The rules, in the order of their numbers. -/
  rules : Array (Rule V)
  deriving Inhabited

namespace Grammar

variable {V : Type}

/-- The rule with a number. -/
def rule? (grammar : Grammar V) (id : RuleId) : Option (Rule V) :=
  grammar.rules[id.index]?

/-- The name of the rule with a number, or a question mark. -/
def ruleName (grammar : Grammar V) (id : RuleId) : String :=
  ((grammar.rule? id).map Rule.name).getD "?"

/-- The number of the rule with a name. -/
def ruleId? (grammar : Grammar V) (name : String) : Option RuleId :=
  (grammar.rules.toList.findIdx? (·.name == name)).map RuleId.mk

/-- The names of the rules as a list of quoted texts. -/
def describe (grammar : Grammar V) : String :=
  "[" ++ String.intercalate ", " (grammar.rules.toList.map (Text.quoteString ·.name)) ++ "]"

/-- A rule of the grammar is named by its name. -/
theorem ruleName_of_rule? {grammar : Grammar V} {id : RuleId} {rule : Rule V}
    (h : grammar.rule? id = some rule) : grammar.ruleName id = rule.name := by
  simp [ruleName, h]

end Grammar

end Peg
