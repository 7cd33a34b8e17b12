import Peg.Expr.Whitespace
import Peg.Grammar.Check

/-!
# Drafts of grammars

A draft collects rules step by step.  A rule is declared under a name and gets
its body later, so rules can refer to one another.  A finished draft is checked
and frozen into a grammar.

Main results:

- `declare_of_mem`: declaring a name again gives the same rule.
- `build_eq_ok_iff`: which drafts become grammars, and which grammars they
  become.
-/

namespace Peg

/-- A rule of a draft. -/
structure DraftRule (V : Type) where
  /-- The name. -/
  name : String
  /-- The body, once it has one. -/
  body? : Option (Expr V)
  /-- How matches and mismatches are treated. -/
  options : RuleOptions
  deriving Inhabited

/-- A grammar in the making. -/
structure Draft (V : Type) where
  /-- The declared rules, in the order of their numbers. -/
  rules : Array (DraftRule V)
  /-- The rule for the spaces that end literals. -/
  whitespace? : Option RuleId
  /-- The first fault of a step. -/
  fault? : Option GrammarError
  /-- Number of rule variables handed out. -/
  vars : Nat

namespace Draft

variable {V : Type}

/-- The draft without rules. -/
def empty : Draft V :=
  ⟨#[], none, none, 0⟩

instance : Inhabited (Draft V) :=
  ⟨empty⟩

/-- The number of the rule with a name. -/
def ruleId? (draft : Draft V) (name : String) : Option RuleId :=
  (draft.rules.toList.findIdx? (·.name == name)).map RuleId.mk

/-- The rule with a name, which is added if there is none. -/
def declare (draft : Draft V) (name : String) : RuleId × Draft V :=
  match draft.ruleId? name with
  | some id => (id, draft)
  | none =>
    (⟨draft.rules.size⟩, { draft with rules := draft.rules.push ⟨name, none, {}⟩ })

/-- Note a fault; the first one counts. -/
def note (draft : Draft V) (fault : GrammarError) : Draft V :=
  { draft with fault? := draft.fault? <|> some fault }

/-- Give a rule its body. -/
def define (draft : Draft V) (id : RuleId) (body : Expr V) : Draft V :=
  match draft.rules[id.index]? with
  | none => draft.note (.unknownRule "<builder>" id.index)
  | some rule =>
    match rule.body? with
    | some _ => draft.note (.duplicateRule rule.name)
    | none =>
      { draft with rules := draft.rules.setIfInBounds id.index { rule with body? := some body } }

/-- Declare a rule and give it its body. -/
def rule (draft : Draft V) (name : String) (body : Expr V) : RuleId × Draft V :=
  let (id, draft) := draft.declare name
  (id, draft.define id body)

/-- Set the options of a rule; nothing happens if there is no such rule. -/
def setOptions (draft : Draft V) (id : RuleId) (options : RuleOptions) : Draft V :=
  match draft.rules[id.index]? with
  | none => draft
  | some rule =>
    { draft with rules := draft.rules.setIfInBounds id.index { rule with options := options } }

/-- Declare a rule, give it its body and set its options. -/
def ruleWith (draft : Draft V) (name : String) (options : RuleOptions) (body : Expr V) :
    RuleId × Draft V :=
  let (id, draft) := draft.rule name body
  (id, draft.setOptions id options)

/-- Choose the rule for the spaces that end literals. -/
def setWhitespace (draft : Draft V) (id : RuleId) : Draft V :=
  { draft with whitespace? := some id }

/-- Hand out a rule variable that has not been handed out before. -/
def newVar (draft : Draft V) : Nat × Draft V :=
  (draft.vars, { draft with vars := draft.vars + 1 })

/-- A body as it goes into the grammar. -/
def expand (draft : Draft V) (body : Expr V) : Expr V :=
  match draft.whitespace? with
  | some whitespace => body.expandWhitespace whitespace
  | none => body

/-- A rule as it goes into the grammar; it needs a body. -/
def finishRule (draft : Draft V) (rule : DraftRule V) : Except GrammarError (Rule V) :=
  match rule.body? with
  | some body => .ok ⟨rule.name, draft.expand body, rule.options⟩
  | none => .error (.undefinedRule rule.name)

/-- Check a draft and freeze it into a grammar. -/
def build (draft : Draft V) : Except GrammarError (Grammar V) :=
  match draft.fault? with
  | some fault => .error fault
  | none => do
    let rules ← draft.rules.toList.mapM draft.finishRule
    Check.check rules
    return ⟨rules.toArray⟩

/-- Declaring a name again gives the same rule and changes nothing. -/
theorem declare_of_mem {draft : Draft V} {name : String} {id : RuleId}
    (h : draft.ruleId? name = some id) : draft.declare name = (id, draft) := by
  simp [declare, h]

/-- A draft becomes a grammar exactly if no step was at fault, every rule has a
body, and the rules are accepted; the grammar has the rules of the draft with
their literals expanded. -/
theorem build_eq_ok_iff {draft : Draft V} {grammar : Grammar V} :
    draft.build = .ok grammar ↔
      draft.fault? = none ∧
        ∃ rules, draft.rules.toList.mapM draft.finishRule = .ok rules ∧
          Check.check rules = .ok () ∧ grammar = ⟨rules.toArray⟩ := by
  unfold build
  cases draft.fault? with
  | some fault => simp
  | none =>
    cases hm : draft.rules.toList.mapM draft.finishRule with
    | error fault => simp [bind, Except.bind]
    | ok rules =>
      cases hc : Check.check rules with
      | error fault => simp [bind, Except.bind, hc]
      | ok _ => simp [bind, Except.bind, hc, pure, Except.pure, eq_comm]

end Draft

end Peg
