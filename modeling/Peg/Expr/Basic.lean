import Peg.Action.Program
import Peg.Expr.CharSet
import Peg.Text.Layout

/-!
# Parsing expressions

A parsing expression is one construct of a grammar.  Terminals consume
characters, combinators compose other expressions, a rule reference stands for
the body of a rule, and an action runs a program on the value stack.

Main results:

- `sequence_singleton`, `firstOf_singleton`: combining one expression gives that
  expression.
- `induction_children`: induction on the parts of an expression.
- `mem_subterms_self`: an expression is the first of its subterms.
-/

namespace Peg

open Text

/-- The number of a rule in its grammar. -/
structure RuleId where
  /-- How many rules stand in front of it. -/
  index : Nat
  deriving DecidableEq, Repr, Hashable, Inhabited

instance : ToString RuleId where
  toString id := "#" ++ toString id.index

/-- A parsing expression over values of type `V`. -/
inductive Expr (V : Type) where
  /-- A certain character. -/
  | char (c : Char)
  /-- A character of an inclusive range. -/
  | range (low high : Char)
  /-- A character of a set. -/
  | oneOf (set : CharSet)
  /-- A certain text, with or without regard to letter case. -/
  | literal (text : String) (ignoreCase : Bool)
  /-- Any character. -/
  | any
  /-- The end of the input. -/
  | endOfInput
  /-- Nothing at all; always matches. -/
  | empty
  /-- Never matches. -/
  | nothing
  /-- One expression after another. -/
  | seq (items : List (Expr V))
  /-- The first expression that matches. -/
  | choice (items : List (Expr V))
  /-- An expression as often as it matches. -/
  | star (body : Expr V)
  /-- An expression as often as it matches, at least once. -/
  | plus (body : Expr V)
  /-- An expression if it matches. -/
  | optional (body : Expr V)
  /-- Matches nothing where the expression does not match. -/
  | notAhead (body : Expr V)
  /-- Matches nothing where the expression matches. -/
  | ahead (body : Expr V)
  /-- The body of a rule. -/
  | rule (id : RuleId)
  /-- An expression under a name for messages and parse trees. -/
  | label (name : String) (body : Expr V)
  /-- A program on what was matched. -/
  | action (action : Action V)

namespace Expr

variable {V : Type}

instance : Inhabited (Expr V) :=
  ⟨empty⟩

/-! ## Building expressions -/

/-- A character out of some characters. -/
def anyOf (chars : List Char) : Expr V :=
  match chars with
  | [c] => char c
  | _ => oneOf (CharSet.anyOf chars)

/-- Any character but some. -/
def noneOf (chars : List Char) : Expr V :=
  oneOf (CharSet.noneOf chars)

/-- The start of an indented block. -/
def indent : Expr V :=
  char indentMark

/-- The end of an indented block. -/
def dedent : Expr V :=
  char dedentMark

/-- Expressions in sequence; none is the empty match, one is itself. -/
def sequence : List (Expr V) → Expr V
  | [] => empty
  | [item] => item
  | items => seq items

/-- The first expression that matches; none never matches, one is itself. -/
def firstOf : List (Expr V) → Expr V
  | [] => nothing
  | [item] => item
  | items => choice items

/-- An expression a number of times. -/
def times (count : Nat) (body : Expr V) : Expr V :=
  sequence (List.replicate count body)

@[simp] theorem sequence_singleton (item : Expr V) : sequence [item] = item :=
  rfl

@[simp] theorem firstOf_singleton (item : Expr V) : firstOf [item] = item :=
  rfl

/-! ## Structure -/

/-- Whether an expression matches characters by itself. -/
def isTerminal : Expr V → Bool
  | char _ | range .. | oneOf _ | literal .. | any | endOfInput | empty | nothing => true
  | _ => false

/-- The direct parts of an expression. -/
def children : Expr V → List (Expr V)
  | seq items | choice items => items
  | star body | plus body | optional body | notAhead body | ahead body => [body]
  | label _ body => [body]
  | _ => []

/-- A part of an expression is smaller than the expression. -/
theorem sizeOf_lt_of_mem_children {part e : Expr V} (h : part ∈ e.children) :
    sizeOf part < sizeOf e := by
  cases e with
  | seq items | choice items =>
    have lt : sizeOf part < sizeOf items := List.sizeOf_lt_of_mem h
    simp only [seq.sizeOf_spec, choice.sizeOf_spec]
    omega
  | star body | plus body | optional body | notAhead body | ahead body | label _ body =>
    obtain rfl := List.mem_singleton.1 h
    simp only [star.sizeOf_spec, plus.sizeOf_spec, optional.sizeOf_spec, notAhead.sizeOf_spec,
      ahead.sizeOf_spec, label.sizeOf_spec]
    omega
  | _ => cases h

/-- What holds of an expression if it holds of its parts holds of every
expression. -/
theorem induction_children {motive : Expr V → Prop}
    (step : ∀ e : Expr V, (∀ part ∈ e.children, motive part) → motive e) (e : Expr V) :
    motive e :=
  step e fun part _ => induction_children step part
termination_by e
decreasing_by exact sizeOf_lt_of_mem_children ‹_›

mutual

/-- An expression and all its parts, each before its own parts. -/
def subterms : Expr V → List (Expr V)
  | seq items => seq items :: subtermsOf items
  | choice items => choice items :: subtermsOf items
  | star body => star body :: body.subterms
  | plus body => plus body :: body.subterms
  | optional body => optional body :: body.subterms
  | notAhead body => notAhead body :: body.subterms
  | ahead body => ahead body :: body.subterms
  | label name body => label name body :: body.subterms
  | other => [other]

/-- The subterms of expressions, one expression after another. -/
def subtermsOf : List (Expr V) → List (Expr V)
  | [] => []
  | item :: items => item.subterms ++ subtermsOf items

end

/-- An expression is the first of its subterms. -/
theorem mem_subterms_self (e : Expr V) : e ∈ e.subterms := by
  cases e <;> simp [subterms]

/-- Whether an expression is an action. -/
def isAction : Expr V → Bool
  | action _ => true
  | _ => false

mutual

/-- Number of expressions nested in one another, at the deepest place. -/
def nesting : Expr V → Nat
  | seq items => nestingOf items + 1
  | choice items => nestingOf items + 1
  | star body => body.nesting + 1
  | plus body => body.nesting + 1
  | optional body => body.nesting + 1
  | notAhead body => body.nesting + 1
  | ahead body => body.nesting + 1
  | label _ body => body.nesting + 1
  | _ => 1

/-- The deepest nesting among expressions. -/
def nestingOf : List (Expr V) → Nat
  | [] => 0
  | item :: items => max item.nesting (nestingOf items)

end

/-! ## Descriptions -/

/-- An expression as it is named in messages, given the names of rules. -/
def describe (ruleName : RuleId → String) : Expr V → String
  | char c =>
    if c = indentMark then "INDENT"
    else if c = dedentMark then "DEDENT"
    else quoteChar c
  | range low high => quoteChar low ++ ".." ++ quoteChar high
  | oneOf set => set.describe
  | literal text _ => quoteString text
  | any => "ANY"
  | endOfInput => "EOI"
  | empty => "EMPTY"
  | nothing => "NOTHING"
  | seq _ => "sequence"
  | choice _ => "choice"
  | star _ | plus _ => "repetition"
  | optional _ => "optional"
  | notAhead _ | ahead _ => "lookahead"
  | rule id => ruleName id
  | label name _ => name
  | action _ => "action"

end Expr

end Peg
