import Mathlib.Data.Char
import Mathlib.Data.List.Induction
import Mathlib.Data.Set.Lattice
import Mathlib.Order.Interval.Set.Basic
import Peg.Expr.CharSet

/-!
# The algebra of character sets

A set of characters is built step by step.  Every step has its meaning as an operation on
sets: a union of ranges or of characters, a complement, a range that is added.  The steps do
what they mean, but for one: a range is added to the ranges that are kept, and in a set that
is the complement of its ranges it is left out then.

Main results:

- `CharSet.chars_withRange` and `CharSet.chars_withRange_of_negated`: what adding a range
  comes to.
- `CharSet.matches_build_iff`: a set holds what its steps denote, if no range is added to a
  complement.
- `CharSet.matches_build_negated`: a range that is added to a complement is lost.
-/

namespace Peg.CharSet

/-! ## Steps and what they denote -/

/-- A step of building a set of characters. -/
inductive Step where
  /-- The characters of some ranges. -/
  | ofRanges (ranges : List (Char × Char))
  /-- Some characters. -/
  | anyOf (chars : List Char)
  /-- All characters but some. -/
  | noneOf (chars : List Char)
  /-- One range more. -/
  | withRange (low high : Char)
  /-- The complement. -/
  | negate
  deriving DecidableEq, Repr

/-- The set after a step. -/
def Step.apply (set : CharSet) : Step → CharSet
  | ofRanges ranges => CharSet.ofRanges ranges
  | anyOf chars => CharSet.anyOf chars
  | noneOf chars => CharSet.noneOf chars
  | withRange low high => set.withRange low high
  | negate => set.negate

/-- The set that steps build, starting with no character. -/
def build (steps : List Step) : CharSet :=
  steps.foldl Step.apply (ofRanges [])

/-- The characters after a step. -/
def Step.act (chars : Set Char) : Step → Set Char
  | ofRanges ranges => ⋃ range ∈ ranges, Set.Icc range.1 range.2
  | anyOf members => {c | c ∈ members}
  | noneOf members => {c | c ∈ members}ᶜ
  | withRange low high => chars ∪ Set.Icc low high
  | negate => charsᶜ

/-- The characters that steps denote, starting with none. -/
def denoted (steps : List Step) : Set Char :=
  steps.foldl Step.act ∅

/-- Nothing is added to the complement of some ranges: where a range is added, the set is no
complement, or the range is empty. -/
def WidensRanges (steps : List Step) : Prop :=
  ∀ front low high back, steps = front ++ .withRange low high :: back →
    low ≤ high → (build front).negated = false

/-! ## The characters of a set -/

/-- The characters that a set holds. -/
def chars (set : CharSet) : Set Char :=
  {c | set.matches c = true}

variable {set : CharSet} {low high : Char} {steps : List Step}

/-- A set of ranges holds the characters of each of them. -/
theorem chars_ofRanges (ranges : List (Char × Char)) :
    (ofRanges ranges).chars = ⋃ range ∈ ranges, Set.Icc range.1 range.2 := by
  ext c
  have hranges : (∃ range ∈ ranges, inRange c range = true) ↔
      c ∈ ⋃ range ∈ ranges, Set.Icc range.1 range.2 := by
    simp only [inRange, Bool.and_eq_true, decide_eq_true_eq, Set.mem_iUnion, Set.mem_Icc,
      exists_prop]
  rw [← hranges]
  simp [chars, «matches», ofRanges]

/-- A set of characters holds those characters. -/
theorem chars_anyOf (members : List Char) : (anyOf members).chars = {c | c ∈ members} := by
  ext c
  simp [chars]

/-- A negated set holds all other characters. -/
theorem chars_negate (set : CharSet) : set.negate.chars = set.charsᶜ := by
  ext c
  simp [chars]

/-- A negated set of characters holds all but those. -/
theorem chars_noneOf (members : List Char) : (noneOf members).chars = {c | c ∈ members}ᶜ := by
  rw [noneOf, chars_negate, chars_anyOf]

/-- A set that is no complement holds the characters of an added range too. -/
theorem chars_withRange (h : set.negated = false) (low high : Char) :
    (set.withRange low high).chars = set.chars ∪ Set.Icc low high := by
  ext c
  simp [chars, «matches», withRange, h, inRange]

/-- A set that is a complement loses the characters of an added range. -/
theorem chars_withRange_of_negated (h : set.negated = true) (low high : Char) :
    (set.withRange low high).chars = set.chars \ Set.Icc low high := by
  ext c
  simp [chars, «matches», withRange, h, inRange, imp_iff_not_or]

/-! ## Building -/

theorem build_append_singleton (steps : List Step) (step : Step) :
    build (steps ++ [step]) = step.apply (build steps) :=
  List.foldl_append ..

theorem denoted_append_singleton (steps : List Step) (step : Step) :
    denoted (steps ++ [step]) = step.act (denoted steps) :=
  List.foldl_append ..

/-- Ranges are added only while the set is not negated, also in the first steps. -/
theorem WidensRanges.of_append {later : List Step} (h : WidensRanges (steps ++ later)) :
    WidensRanges steps := by
  rintro front low high back rfl
  exact h front low high (back ++ later) (by simp)

/-- A set holds what its steps denote. -/
theorem chars_build (h : WidensRanges steps) : (build steps).chars = denoted steps := by
  induction steps using List.reverseRecOn with
  | nil => exact (chars_ofRanges []).trans (by simp [denoted])
  | append_singleton steps step ih =>
      have hbefore := ih h.of_append
      rw [build_append_singleton, denoted_append_singleton]
      cases step with
      | ofRanges ranges => exact chars_ofRanges ranges
      | anyOf members => exact chars_anyOf members
      | noneOf members => exact chars_noneOf members
      | negate => rw [Step.apply, Step.act, chars_negate, hbefore]
      | withRange low high =>
          rw [Step.apply, Step.act, ← hbefore]
          by_cases hnegated : (build steps).negated = true
          · -- Only an empty range is added to a complement.
            have hempty : ¬ low ≤ high := fun hle =>
              Bool.false_ne_true ((h steps low high [] rfl hle).symm.trans hnegated)
            rw [chars_withRange_of_negated hnegated, Set.Icc_eq_empty hempty, Set.sdiff_empty,
              Set.union_empty]
          · exact chars_withRange (Bool.eq_false_iff.2 hnegated) low high

/-- If no range is added to the complement of some ranges, a set holds exactly the characters
that its steps denote, whatever the ranges, however often they are complemented and in
whichever order. -/
theorem matches_build_iff (h : WidensRanges steps) (c : Char) :
    (build steps).matches c = true ↔ c ∈ denoted steps := by
  rw [← chars_build h]
  rfl

/-- Overlapping and empty ranges, complemented twice and once more. -/
theorem matches_build_iff_letters :
    let steps : List Step := [.noneOf ['x'], .withRange 'z' 'a', .negate,
      .withRange 'a' 'f', .withRange 'e' 'k', .negate]
    WidensRanges steps ∧ ((build steps).matches 'g' = true ↔ 'g' ∈ denoted steps) ∧
      (build steps).matches 'g' = false ∧ (build steps).matches 'z' = true := by
  intro steps
  have hwidens : WidensRanges steps := by
    intro front low high back hsplit hle
    rcases front with _ | ⟨_, _ | ⟨_, _ | ⟨_, _ | ⟨_, _ | ⟨_, _ | ⟨_, _⟩⟩⟩⟩⟩⟩ <;>
      simp [steps] at hsplit
    · obtain ⟨-, ⟨rfl, rfl⟩, -⟩ := hsplit
      exact absurd hle (by decide)
    · obtain ⟨rfl, rfl, rfl, -⟩ := hsplit
      decide
    · obtain ⟨rfl, rfl, rfl, rfl, -⟩ := hsplit
      decide
  exact ⟨hwidens, matches_build_iff hwidens 'g', by decide, by decide⟩

/-- A character that the complement of some ranges holds is lost by adding a range with it. -/
theorem matches_build_negated :
    (build [.noneOf ['b']]).matches 'a' = true ∧
      (build [.noneOf ['b'], .withRange 'a' 'a']).matches 'a' = false ∧
      'a' ∈ denoted [.noneOf ['b'], .withRange 'a' 'a'] :=
  ⟨by decide, by decide, by simp [denoted, Step.act]⟩

end Peg.CharSet
