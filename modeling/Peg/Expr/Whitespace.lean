import Peg.Expr.Basic

/-!
# Trailing blanks in literals

In a grammar with a whitespace rule, a literal that ends in one space stands for
the literal without the space followed by that rule.  A literal that is a lone
space, or that ends in two spaces, stands for itself.

Main results:

- `spaced?_eq_some_iff`: which literals are expanded, and to what.
- `spaced?_of_spaced?`: the shortened literal is not expanded again.
-/

namespace Peg.Expr

open Text

variable {V : Type}

/-- The literal without its trailing space, if it stands for itself followed by
whitespace: there is something in front of the space, and it is no space. -/
def spaced? (text : String) : Option String :=
  match text.toList.reverse with
  | ' ' :: c :: front => if c = ' ' then none else some (String.ofList (c :: front).reverse)
  | _ => none

mutual

/-- Replace literals that end in one space, anywhere in an expression. -/
def expandWhitespace (whitespace : RuleId) : Expr V → Expr V
  | literal text ignoreCase =>
    match spaced? text with
    | some trimmed => seq [literal trimmed ignoreCase, rule whitespace]
    | none => literal text ignoreCase
  | seq items => seq (expandWhitespaceIn whitespace items)
  | choice items => choice (expandWhitespaceIn whitespace items)
  | star body => star (body.expandWhitespace whitespace)
  | plus body => plus (body.expandWhitespace whitespace)
  | optional body => optional (body.expandWhitespace whitespace)
  | notAhead body => notAhead (body.expandWhitespace whitespace)
  | ahead body => ahead (body.expandWhitespace whitespace)
  | label name body => label name (body.expandWhitespace whitespace)
  | other => other

/-- Replace literals that end in one space, anywhere in some expressions. -/
def expandWhitespaceIn (whitespace : RuleId) : List (Expr V) → List (Expr V)
  | [] => []
  | item :: items => item.expandWhitespace whitespace :: expandWhitespaceIn whitespace items

end

/-- Expressions are expanded one by one. -/
@[simp] theorem expandWhitespaceIn_eq_map (whitespace : RuleId) (items : List (Expr V)) :
    expandWhitespaceIn whitespace items = items.map (expandWhitespace whitespace) := by
  induction items with
  | nil => rfl
  | cons item items ih => simp [expandWhitespaceIn, ih]

/-- A literal is expanded exactly if it consists of some text that ends in no
space, and one space. -/
theorem spaced?_eq_some_iff {text trimmed : String} :
    spaced? text = some trimmed ↔
      ∃ front c, c ≠ ' ' ∧ trimmed.toList = front ++ [c] ∧ text.toList = front ++ [c, ' '] := by
  constructor
  · intro h
    unfold spaced? at h
    split at h
    next c front hr =>
      split at h
      next => cases h
      next hc =>
        simp only [Option.some.injEq] at h
        subst h
        refine ⟨front.reverse, c, hc, by simp, ?_⟩
        have := congrArg List.reverse hr
        simpa using this
    next => cases h
  · rintro ⟨front, c, hc, ht, hs⟩
    have hr : text.toList.reverse = ' ' :: c :: front.reverse := by simp [hs]
    unfold spaced?
    rw [hr]
    simp only [hc, if_false, Option.some.injEq]
    apply String.toList_inj.1
    simp [ht]

/-- The shortened literal is not expanded again. -/
theorem spaced?_of_spaced? {text trimmed : String} (h : spaced? text = some trimmed) :
    spaced? trimmed = none := by
  obtain ⟨front, c, hc, ht, _⟩ := spaced?_eq_some_iff.1 h
  unfold spaced?
  rw [ht]
  simp only [List.reverse_append, List.reverse_cons, List.reverse_nil, List.nil_append,
    List.cons_append]
  split
  next h => simp at h; exact absurd h.1 hc
  next => rfl

end Peg.Expr
