import Peg.Grammar.Basic
import Peg.Grammar.Error
import Peg.Grammar.LeftRecursion

/-!
# Accepted rules

Rules make up a grammar if every reference and every character range in them is
sound, no repetition can go on without consuming input, and none of them is left
recursive.  Faults are reported in this order, and among faults of one kind by
rule.

Main results:

- `localFault?_eq_none_iff`: which expressions are sound by themselves.
- `check_eq_ok_iff`: rules are accepted exactly if none of the faults exists.
-/

namespace Peg

variable {V : Type}

namespace Check

/-- The fault of an expression by itself, in a named rule of a grammar with some
number of rules. -/
def localFault? (ruleCount : Nat) (name : String) : Expr V → Option GrammarError
  | .rule id => if id.index < ruleCount then none else some (.unknownRule name id.index)
  | .range low high => if low ≤ high then none else some (.invalidCharRange name low high)
  | _ => none

/-- The first fault of a part of a rule by itself. -/
def ruleFault? (ruleCount : Nat) (rule : Rule V) : Option GrammarError :=
  rule.body.subterms.findSome? (localFault? ruleCount rule.name)

/-- Whether an expression repeats a nullable one. -/
def isEmptyLoop (known : RuleId → Bool) : Expr V → Bool
  | .star body | .plus body => body.nullable known
  | _ => false

/-- Whether a part of an expression repeats a nullable one. -/
def hasEmptyLoop (known : RuleId → Bool) (body : Expr V) : Bool :=
  body.subterms.any (isEmptyLoop known)

/-- The bodies of rules. -/
def bodies (rules : List (Rule V)) : List (Expr V) :=
  rules.map Rule.body

/-- Which rules are nullable. -/
def known (rules : List (Rule V)) : List Bool :=
  Nullable.rules (bodies rules)

/-- A cycle of rules that may invoke one another before consuming input. -/
def cycle? (rules : List (Rule V)) : Option (List RuleId) :=
  LeftRecursion.findCycle? (LeftRecursion.graph (bodies rules) (known rules))

/-- The name of a rule, as far as it exists. -/
def nameOf? (rules : List (Rule V)) (id : RuleId) : Option String :=
  (rules[id.index]?).map Rule.name

/-- Accept rules, or report the first fault. -/
def check (rules : List (Rule V)) : Except GrammarError Unit :=
  match rules.findSome? (ruleFault? rules.length) with
  | some fault => .error fault
  | none =>
    match rules.find? fun rule => hasEmptyLoop (Nullable.lookup (known rules)) rule.body with
    | some rule => .error (.emptyLoop rule.name)
    | none =>
      match cycle? rules with
      | some cycle => .error (.leftRecursion (cycle.filterMap (nameOf? rules)))
      | none => .ok ()

/-- Which expressions are sound by themselves. -/
theorem localFault?_eq_none_iff {ruleCount : Nat} {name : String} {e : Expr V} :
    localFault? ruleCount name e = none ↔
      (∀ id, e = .rule id → id.index < ruleCount) ∧
        ∀ low high, e = .range low high → low ≤ high := by
  cases e <;> simp [localFault?]

/-- Rules are accepted exactly if every part of them is sound by itself, none
repeats a nullable expression, and the search finds no cycle. -/
theorem check_eq_ok_iff {rules : List (Rule V)} :
    check rules = .ok () ↔
      (∀ rule ∈ rules, ∀ e ∈ rule.body.subterms,
        localFault? rules.length rule.name e = none) ∧
      (∀ rule ∈ rules, hasEmptyLoop (Nullable.lookup (known rules)) rule.body = false) ∧
      cycle? rules = none := by
  unfold check
  split
  next fault h =>
    simp only [reduceCtorEq, false_iff]
    rintro ⟨sound, -, -⟩
    obtain ⟨rule, hr, hf⟩ := List.exists_of_findSome?_eq_some h
    obtain ⟨e, he, hl⟩ := List.exists_of_findSome?_eq_some hf
    rw [sound rule hr e he] at hl
    cases hl
  next h =>
    have sound : ∀ rule ∈ rules, ∀ e ∈ rule.body.subterms,
        localFault? rules.length rule.name e = none := fun rule hr e he =>
      List.findSome?_eq_none_iff.1 (List.findSome?_eq_none_iff.1 h rule hr) e he
    split
    next rule h =>
      simp only [reduceCtorEq, false_iff]
      rintro ⟨-, loops, -⟩
      have := loops rule (List.mem_of_find?_eq_some h)
      rw [List.find?_some h] at this
      cases this
    next h =>
      have loops : ∀ rule ∈ rules,
          hasEmptyLoop (Nullable.lookup (known rules)) rule.body = false := by
        simpa using h
      split
      next h => simp [h]
      next h => simp only [h, and_true, true_iff]; exact ⟨sound, loops⟩

end Check

end Peg
