import Peg.Grammar.Basic
import Peg.Proofs.Expr.Subterms

/-!
# Which rules a rule can get to

A rule reaches the rules that are mentioned in its body, the rules mentioned in the
bodies of those, and so on.  If no action stands in any of them, matching the rule
runs no action.

Main results:

- `Grammar.ActionFree.mention`: the rules mentioned by a rule that runs no actions run
  none either.
- `Grammar.actionFree_of_no_reference`: a rule that mentions no rules and contains no
  actions runs none.
- `Grammar.memoApart_of_no_lookahead`: in a grammar without lookahead no rule is invoked
  inside of it.
-/

namespace Peg.Grammar

variable {V : Type}

/-- A rule can get to a rule, by none or more references. -/
inductive Reaches (grammar : Grammar V) : RuleId → RuleId → Prop
  | refl (id : RuleId) : Reaches grammar id id
  | step {id next last : RuleId} {rule : Rule V} (hrule : grammar.rule? id = some rule)
      (hmem : .rule next ∈ rule.body.subterms) (hreaches : Reaches grammar next last) :
      Reaches grammar id last

/-- No rule that can be got to contains an action. -/
def ActionFree (grammar : Grammar V) (id : RuleId) : Prop :=
  ∀ last rule action, grammar.Reaches id last → grammar.rule? last = some rule →
    .action action ∉ rule.body.subterms

/-- All actions in the rules of a grammar are of one kind. -/
def Admits (grammar : Grammar V) (allows : Action V → Prop) : Prop :=
  ∀ id rule, grammar.rule? id = some rule → rule.body.Admits allows

/-- What is allowed of all actions of a grammar may be weakened. -/
theorem Admits.imp {grammar : Grammar V} {allows allows' : Action V → Prop}
    (h : grammar.Admits allows) (himp : ∀ action, allows action → allows' action) :
    grammar.Admits allows' :=
  fun id rule hrule => (h id rule hrule).imp himp

/-- Rules whose mismatches are remembered run no actions. -/
def MemoActionFree (grammar : Grammar V) : Prop :=
  ∀ id rule, grammar.rule? id = some rule → rule.options.memoMismatches = true →
    grammar.ActionFree id

/-- From a root, a rule may be invoked inside of lookahead, or outside. -/
inductive Invokes (grammar : Grammar V) (root : RuleId) : Bool → RuleId → Prop
  | root : Invokes grammar root false root
  | mention {probing inside : Bool} {id next : RuleId} {rule : Rule V}
      (hinvokes : Invokes grammar root probing id) (hrule : grammar.rule? id = some rule)
      (hmentions : rule.body.Mentions probing inside next) : Invokes grammar root inside next

/-- No rule whose mismatches are remembered may be invoked both inside of lookahead and
outside. -/
def MemoApart (grammar : Grammar V) (root : RuleId) : Prop :=
  ∀ id rule, grammar.rule? id = some rule → rule.options.memoMismatches = true →
    grammar.Invokes root false id → ¬ grammar.Invokes root true id

variable {grammar : Grammar V} {id next : RuleId} {rule : Rule V}

/-- Whatever a rule without actions refers to has none either. -/
theorem ActionFree.mention (h : grammar.ActionFree id) (hrule : grammar.rule? id = some rule)
    (hmem : .rule next ∈ rule.body.subterms) : grammar.ActionFree next :=
  fun last definition action hreaches hlast =>
    h last definition action (.step hrule hmem hreaches) hlast

/-- A rule without actions has none in its body. -/
theorem ActionFree.not_mem (h : grammar.ActionFree id) (hrule : grammar.rule? id = some rule)
    (action : Action V) : .action action ∉ rule.body.subterms :=
  h id rule action (.refl id) hrule

/-- A rule that mentions no rules and contains no actions runs none. -/
theorem actionFree_of_no_reference (hrule : grammar.rule? id = some rule)
    (hreference : ∀ next, .rule next ∉ rule.body.subterms)
    (haction : ∀ action, .action action ∉ rule.body.subterms) : grammar.ActionFree id := by
  intro last definition action hreaches hlast
  cases hreaches with
  | refl id =>
      rw [hrule, Option.some_inj] at hlast
      exact hlast ▸ haction action
  | step hfirst hmem hreaches =>
      rw [hrule, Option.some_inj] at hfirst
      exact absurd (hfirst ▸ hmem) (hreference _)

/-- In a grammar without lookahead no rule is invoked inside of lookahead. -/
theorem memoApart_of_no_lookahead
    (hnone : ∀ id rule, grammar.rule? id = some rule →
      ∀ e ∈ rule.body.subterms, e.looksAhead = false) (root : RuleId) :
    grammar.MemoApart root := by
  have houtside : ∀ probing id, grammar.Invokes root probing id → probing = false := by
    intro probing id h
    induction h with
    | root => rfl
    | mention hinvokes hrule hmentions ih =>
        exact (hmentions.inside_eq (hnone _ _ hrule)).trans ih
  intro id rule hrule hmemo _ hinside
  cases houtside true id hinside

end Peg.Grammar
