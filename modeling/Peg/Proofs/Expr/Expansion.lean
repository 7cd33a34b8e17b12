import Mathlib.Data.List.Infix
import Peg.Expr.Whitespace
import Peg.Proofs.Expr.Subterms

/-!
# What the expansion of literals comes to

A literal that ends in one space gives way to a sequence of the literal without the space and
the rule for whitespace.  Which literals these are is said here by their text alone.  Apart
from them an expression stays as it was written: its expansion has the same expressions, each
with its name, its action or its rule, in the same order and with the same numbers of parts.

Main results:

- `spaced?_eq`: which literals are expanded, and to what.
- `expandWhitespace_expandWhitespace`: an expression is expanded once.
- `outlines_expandWhitespace`: what is left of the expressions in an expression.
- `at?_expandWhitespace`: what stands at a place is expanded where it stands.
-/

namespace Peg.Expr

open Text

variable {V : Type} {whitespace : RuleId} {text : String} {ignoreCase : Bool} {e : Expr V}

/-! ## Literals -/

/-- A text is longer than one byte and ends in exactly one space. -/
def EndsInOneSpace (text : String) : Prop :=
  1 < byteSize text.toList ∧ [' '] <:+ text.toList ∧ ¬ [' ', ' '] <:+ text.toList

instance : DecidablePred EndsInOneSpace := fun text =>
  inferInstanceAs (Decidable (1 < byteSize text.toList ∧ _ ∧ _))

/-- A text without its last character. -/
def dropLast (text : String) : String :=
  String.ofList text.toList.dropLast

theorem dropLast_append_space (lit : String) : dropLast (lit ++ " ") = lit := by
  simp [dropLast]

/-- Exactly one space ends a text that has something else in front of that space. -/
theorem endsInOneSpace_iff :
    EndsInOneSpace text ↔ ∃ front c, c ≠ ' ' ∧ text.toList = front ++ [c, ' '] := by
  constructor
  · rintro ⟨hsize, ⟨start, hstart⟩, hdouble⟩
    rcases List.eq_nil_or_concat' start with rfl | ⟨front, c, rfl⟩
    · rw [← hstart] at hsize
      exact absurd hsize (by decide)
    · refine ⟨front, c, ?_, by simpa using hstart.symm⟩
      rintro rfl
      exact hdouble ⟨front, by simpa using hstart⟩
  · rintro ⟨front, c, hc, htext⟩
    refine ⟨?_, ⟨front ++ [c], by simp [htext]⟩, ?_⟩
    · have hpos := c.utf8Size_pos
      simp only [htext, byteSize_append, byteSize_cons, byteSize_nil]
      have hspace : (' ').utf8Size = 1 := rfl
      omega
    · rintro ⟨start, hstart⟩
      rw [htext] at hstart
      have hlast : [' ', ' '] = [c, ' '] := (List.append_inj' hstart rfl).2
      exact hc (List.cons.inj hlast).1.symm

/-- Exactly the literals that end in one space are expanded, to what is in front of it. -/
theorem spaced?_eq (text : String) :
    spaced? text = if EndsInOneSpace text then some (dropLast text) else none := by
  split
  next hspace =>
      rcases endsInOneSpace_iff.1 hspace with ⟨front, c, hc, htext⟩
      refine spaced?_eq_some_iff.2 ⟨front, c, hc, ?_, htext⟩
      simp [dropLast, htext]
  next hspace =>
      refine Option.eq_none_iff_forall_ne_some.2 fun trimmed hsome => hspace ?_
      rcases spaced?_eq_some_iff.1 hsome with ⟨front, c, hc, -, htext⟩
      exact endsInOneSpace_iff.2 ⟨front, c, hc, htext⟩

/-- A literal is expanded exactly if it ends in one space. -/
theorem expandWhitespace_literal (whitespace : RuleId) (text : String) (ignoreCase : Bool) :
    (literal text ignoreCase : Expr V).expandWhitespace whitespace =
      if EndsInOneSpace text then seq [literal (dropLast text) ignoreCase, rule whitespace]
      else literal text ignoreCase := by
  rw [expandWhitespace, spaced?_eq]
  by_cases hspace : EndsInOneSpace text
  · rw [if_pos hspace, if_pos hspace]
  · rw [if_neg hspace, if_neg hspace]

/-- Without its space a literal is not expanded again. -/
theorem not_endsInOneSpace_dropLast (h : EndsInOneSpace text) :
    ¬ EndsInOneSpace (dropLast text) := by
  rcases endsInOneSpace_iff.1 h with ⟨front, c, hc, htext⟩
  rintro ⟨-, ⟨start, hstart⟩, -⟩
  have hlast : start ++ [' '] = front ++ [c] := by simpa [dropLast, htext] using hstart
  exact hc (List.cons.inj (List.append_inj' hlast rfl).2).1.symm

/-- Expanding again, with whatever rule for whitespace, changes nothing. -/
theorem expandWhitespace_expandWhitespace (whitespace again : RuleId) (e : Expr V) :
    (e.expandWhitespace whitespace).expandWhitespace again = e.expandWhitespace whitespace := by
  induction e using induction_children with
  | step e ih =>
      cases e with
      | literal text ignoreCase =>
          rw [expandWhitespace_literal]
          split
          next hspace =>
              simp [expandWhitespace, spaced?_eq, not_endsInOneSpace_dropLast hspace]
          next hspace => rw [expandWhitespace_literal, if_neg hspace]
      | seq items | choice items =>
          simp only [expandWhitespace, expandWhitespaceIn_eq_map, List.map_map]
          exact congrArg _ (List.map_congr_left ih)
      | star body | plus body | optional body | notAhead body | ahead body | label name body =>
          simp only [expandWhitespace, ih body List.mem_cons_self]
      | _ => rfl

/-! ## Outlines -/

/-- An expression with its parts left blank. -/
def outline : Expr V → Expr V
  | seq items => seq (List.replicate items.length empty)
  | choice items => choice (List.replicate items.length empty)
  | star _ => star empty
  | plus _ => plus empty
  | optional _ => optional empty
  | notAhead _ => notAhead empty
  | ahead _ => ahead empty
  | label name _ => label name empty
  | other => other

/-- What is left of an expression, its parts aside: three expressions of a literal that ends in
one space, and just itself of any other expression. -/
def replacement (whitespace : RuleId) : Expr V → List (Expr V)
  | literal text ignoreCase =>
    if EndsInOneSpace text then
      [seq [empty, empty], literal (dropLast text) ignoreCase, rule whitespace]
    else [literal text ignoreCase]
  | e => [e.outline]

/-- A literal that is expanded. -/
def IsSpaced (e : Expr V) : Prop :=
  ∃ text ignoreCase, e = literal text ignoreCase ∧ EndsInOneSpace text

/-- What is no spaced literal is not replaced. -/
theorem replacement_of_not_isSpaced (h : ¬ e.IsSpaced) :
    e.replacement whitespace = [e.outline] := by
  cases e with
  | literal text ignoreCase => exact if_neg fun hspace => h ⟨text, ignoreCase, rfl, hspace⟩
  | _ => rfl

/-- What is no spaced literal keeps its kind and its payload. -/
theorem outline_expandWhitespace (h : ¬ e.IsSpaced) :
    (e.expandWhitespace whitespace).outline = e.outline := by
  cases e with
  | literal text ignoreCase =>
      rw [expandWhitespace_literal, if_neg fun hspace => h ⟨text, ignoreCase, rfl, hspace⟩]
  | seq items | choice items => simp [expandWhitespace, outline]
  | _ => rfl

/-- What is no spaced literal keeps its parts in order, each of them expanded. -/
theorem children_expandWhitespace (h : ¬ e.IsSpaced) :
    (e.expandWhitespace whitespace).children = e.children.map (expandWhitespace whitespace) := by
  cases e with
  | literal text ignoreCase =>
      rw [expandWhitespace_literal, if_neg fun hspace => h ⟨text, ignoreCase, rfl, hspace⟩]
      rfl
  | seq items | choice items => simp [expandWhitespace, children]
  | _ => rfl

theorem subtermsOf_eq_flatMap (items : List (Expr V)) :
    subtermsOf items = items.flatMap subterms := by
  induction items with
  | nil => rfl
  | cons item items ih => rw [subtermsOf, ih, List.flatMap_cons]

/-- The parts of an expression in preorder: itself, and then those of its children. -/
theorem subterms_eq (e : Expr V) : e.subterms = e :: e.children.flatMap subterms := by
  cases e <;> simp [subterms, children, subtermsOf_eq_flatMap]

/-- The expressions in an expanded expression, one after another, are those that were written,
each in its place, but for the literals that end in one space. -/
theorem outlines_expandWhitespace (whitespace : RuleId) (e : Expr V) :
    (e.expandWhitespace whitespace).subterms.map outline =
      e.subterms.flatMap (replacement whitespace) := by
  induction e using induction_children with
  | step e ih =>
      by_cases hspaced : e.IsSpaced
      · rcases hspaced with ⟨text, ignoreCase, rfl, hspace⟩
        simp [expandWhitespace_literal, subterms, subtermsOf, replacement, outline, hspace]
      · calc (e.expandWhitespace whitespace).subterms.map outline
          _ = e.outline ::
              e.children.flatMap fun part =>
                (part.expandWhitespace whitespace).subterms.map outline := by
            rw [subterms_eq, children_expandWhitespace hspaced, List.map_cons,
              outline_expandWhitespace hspaced, List.flatMap_map, List.map_flatMap]
          _ = e.outline ::
              e.children.flatMap fun part => part.subterms.flatMap (replacement whitespace) := by
            rw [List.flatMap_congr ih]
          _ = e.subterms.flatMap (replacement whitespace) := by
            rw [subterms_eq e, List.flatMap_cons, replacement_of_not_isSpaced hspaced,
              List.flatMap_assoc, List.singleton_append]

/-- No literal of an expanded expression ends in one space. -/
theorem not_endsInOneSpace_of_mem
    (h : literal text ignoreCase ∈ (e.expandWhitespace whitespace).subterms) :
    ¬ EndsInOneSpace text := by
  have hmem : literal text ignoreCase ∈ e.subterms.flatMap (replacement whitespace) := by
    rw [← outlines_expandWhitespace]
    exact List.mem_map_of_mem (f := outline) h
  rcases List.mem_flatMap.1 hmem with ⟨written, -, hreplaced⟩
  cases written with
  | literal text' ignoreCase' =>
      by_cases hspace : EndsInOneSpace text'
      · simp only [replacement, if_pos hspace, List.mem_cons, List.not_mem_nil, reduceCtorEq,
          literal.injEq, or_false, false_or] at hreplaced
        rw [hreplaced.1]
        exact not_endsInOneSpace_dropLast hspace
      · simp only [replacement, if_neg hspace, List.mem_singleton, literal.injEq] at hreplaced
        rw [hreplaced.1]
        exact hspace
  | _ => simp [replacement, outline] at hreplaced

/-! ## Places -/

/-- The expression at a place: on the way to it, the numbers of the parts to go into. -/
def at? : Expr V → List Nat → Option (Expr V)
  | e, [] => some e
  | e, index :: path => e.children[index]?.bind fun part => part.at? path

/-- What stands at a place is expanded where it stands. -/
theorem at?_expandWhitespace (whitespace : RuleId) {path : List Nat} {written : Expr V}
    (h : e.at? path = some written) :
    (e.expandWhitespace whitespace).at? path = some (written.expandWhitespace whitespace) := by
  induction path generalizing e with
  | nil =>
      cases h
      rfl
  | cons index path ih =>
      rcases Option.bind_eq_some_iff.1 h with ⟨part, hpart, hwritten⟩
      have hspaced : ¬ e.IsSpaced := by
        -- A literal has no parts.
        rintro ⟨text, ignoreCase, rfl, -⟩
        cases hpart
      rw [at?, children_expandWhitespace hspaced, List.getElem?_map, hpart]
      exact ih hwritten

end Peg.Expr
