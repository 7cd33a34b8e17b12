import Peg.Expr.Basic

/-!
# Matching without consuming

An expression is nullable if it may match without consuming input.  Whether a
rule is nullable depends on other rules, so the nullable rules are found by
sweeping over all bodies until a sweep finds no more of them.

Main results:

- `Expr.nullableIn_eq_all` and `Expr.nullableAmong_eq_any`: a sequence is nullable if all
  of its items are, a choice if one of them is.
- `Nullable.length_rules`: there is one answer for each rule.
-/

namespace Peg

variable {V : Type}

namespace Expr

mutual

/-- Whether an expression may match without consuming input, given which rules
may. -/
def nullable (known : RuleId → Bool) : Expr V → Bool
  | char _ | range .. | oneOf _ | any | nothing => false
  | literal text _ => text.isEmpty
  | endOfInput | empty | action _ => true
  | star _ | optional _ | notAhead _ | ahead _ => true
  | plus body => body.nullable known
  | label _ body => body.nullable known
  | seq items => nullableIn known items
  | choice items => nullableAmong known items
  | rule id => known id

/-- Whether all of some expressions are nullable. -/
def nullableIn (known : RuleId → Bool) : List (Expr V) → Bool
  | [] => true
  | item :: items => item.nullable known && nullableIn known items

/-- Whether one of some expressions is nullable. -/
def nullableAmong (known : RuleId → Bool) : List (Expr V) → Bool
  | [] => false
  | item :: items => item.nullable known || nullableAmong known items

end

/-- A sequence is nullable if all of its items are. -/
@[simp] theorem nullableIn_eq_all (known : RuleId → Bool) (items : List (Expr V)) :
    nullableIn known items = items.all (nullable known) := by
  induction items with
  | nil => rfl
  | cons item items ih => simp [nullableIn, ih]

/-- A choice is nullable if one of its items is. -/
@[simp] theorem nullableAmong_eq_any (known : RuleId → Bool) (items : List (Expr V)) :
    nullableAmong known items = items.any (nullable known) := by
  induction items with
  | nil => rfl
  | cons item items ih => simp [nullableAmong, ih]

end Expr

namespace Nullable

/-- The answer for a rule; rules that do not exist are not nullable. -/
def lookup (known : List Bool) (id : RuleId) : Bool :=
  known.getD id.index false

/-- Mark a rule if its body is nullable by what is known so far. -/
def mark (known : List Bool) (entry : Expr V × Nat) : List Bool :=
  if entry.1.nullable (lookup known) then known.set entry.2 true else known

/-- Go over all bodies once, each time using what has been found before. -/
def sweep (bodies : List (Expr V)) (known : List Bool) : List Bool :=
  bodies.zipIdx.foldl mark known

/-- Sweep until nothing changes, at most a given number of times. -/
def settle (bodies : List (Expr V)) : Nat → List Bool → List Bool
  | 0, known => known
  | sweeps + 1, known =>
    let next := sweep bodies known
    if next = known then known else settle bodies sweeps next

/-- Each sweep that changes something marks a rule, so no more sweeps are needed
than there are rules. -/
def rules (bodies : List (Expr V)) : List Bool :=
  settle bodies bodies.length (List.replicate bodies.length false)

@[simp] theorem length_mark (known : List Bool) (entry : Expr V × Nat) :
    (mark known entry).length = known.length := by
  unfold mark
  split <;> simp

@[simp] theorem length_sweep (bodies : List (Expr V)) (known : List Bool) :
    (sweep bodies known).length = known.length := by
  unfold sweep
  generalize bodies.zipIdx = entries
  induction entries generalizing known with
  | nil => rfl
  | cons entry entries ih => simp [ih]

@[simp] theorem length_settle (bodies : List (Expr V)) (sweeps : Nat) (known : List Bool) :
    (settle bodies sweeps known).length = known.length := by
  induction sweeps generalizing known with
  | zero => rfl
  | succ sweeps ih =>
    simp only [settle]
    split
    next => rfl
    next => simp [ih]

/-- There is one answer for each rule. -/
@[simp] theorem length_rules (bodies : List (Expr V)) :
    (rules bodies).length = bodies.length := by
  simp [rules]

end Nullable

end Peg
