import Peg.Text.Quoted

/-!
# Character sets

A character set is a list of inclusive ranges together with a flag that turns
it into its complement.

Main results:

- `matches_negate`: negation complements.
- `matches_anyOf`: the set of some characters holds exactly those.
-/

namespace Peg

/-- A set of characters. -/
structure CharSet where
  /-- The inclusive ranges, in the order they were added. -/
  ranges : List (Char × Char)
  /-- Whether the set holds the characters outside the ranges instead. -/
  negated : Bool
  deriving DecidableEq, Repr, Inhabited

namespace CharSet

/-- The set of the characters in some ranges. -/
def ofRanges (ranges : List (Char × Char)) : CharSet :=
  ⟨ranges, false⟩

/-- Put a character into an ascending list, once. -/
def insertChar (c : Char) : List Char → List Char
  | [] => [c]
  | d :: chars =>
    if c < d then c :: d :: chars
    else if c = d then d :: chars
    else d :: insertChar c chars

/-- The characters of a list in ascending order, each once. -/
def ascending (chars : List Char) : List Char :=
  chars.foldr insertChar []

/-- The set of some characters. -/
def anyOf (chars : List Char) : CharSet :=
  ofRanges ((ascending chars).map fun c => (c, c))

/-- Complement a set. -/
def negate (set : CharSet) : CharSet :=
  { set with negated := !set.negated }

/-- The set of all characters but some. -/
def noneOf (chars : List Char) : CharSet :=
  (anyOf chars).negate

/-- Add an inclusive range to the ranges of a set. -/
def withRange (set : CharSet) (low high : Char) : CharSet :=
  { set with ranges := set.ranges ++ [(low, high)] }

/-- The decimal digits. -/
def digits : CharSet :=
  ofRanges [('0', '9')]

/-- The hexadecimal digits of both cases. -/
def hexDigits : CharSet :=
  ofRanges [('0', '9'), ('a', 'f'), ('A', 'F')]

/-- Space, tab, line feed, carriage return and form feed. -/
def whitespace : CharSet :=
  anyOf [' ', '\t', '\r', '\n', '\x0c']

/-- Whether a character lies in an inclusive range. -/
def inRange (c : Char) (range : Char × Char) : Bool :=
  range.1 ≤ c && c ≤ range.2

/-- Whether a set holds a character. -/
def «matches» (set : CharSet) (c : Char) : Bool :=
  set.ranges.any (inRange c) != set.negated

/-- Negation complements. -/
@[simp] theorem matches_negate (set : CharSet) (c : Char) :
    set.negate.matches c = !set.matches c := by
  simp only [«matches», negate]
  cases set.ranges.any (inRange c) <;> cases set.negated <;> rfl

@[simp] theorem mem_insertChar (c d : Char) (chars : List Char) :
    d ∈ insertChar c chars ↔ d = c ∨ d ∈ chars := by
  induction chars with
  | nil => simp [insertChar]
  | cons e chars ih =>
    rw [insertChar]
    split
    next => simp
    next =>
      split
      next h => simp [h]
      next => simp [ih, or_left_comm]

@[simp] theorem mem_ascending (c : Char) (chars : List Char) :
    c ∈ ascending chars ↔ c ∈ chars := by
  induction chars with
  | nil => simp [ascending]
  | cons d chars ih =>
    simp only [ascending] at ih
    simp [ascending, ih]

/-- The set of some characters holds exactly those. -/
@[simp] theorem matches_anyOf (chars : List Char) (c : Char) :
    (anyOf chars).matches c = chars.contains c := by
  rw [Bool.eq_iff_iff]
  simp only [«matches», anyOf, ofRanges, List.any_map, Bool.bne_false, List.any_eq_true,
    mem_ascending, Function.comp, inRange, Bool.and_eq_true, decide_eq_true_eq,
    List.contains_iff_mem]
  constructor
  · rintro ⟨d, hd, h1, h2⟩
    exact Char.le_antisymm h2 h1 ▸ hd
  · intro h
    exact ⟨c, h, Char.le_refl c, Char.le_refl c⟩

/-! ## Descriptions -/

/-- Whether a character is a control character. -/
def isControl (c : Char) : Bool :=
  c.toNat < 0x20 || (0x7F ≤ c.toNat && c.toNat < 0xA0)

/-- One end of a range in the description of a set. -/
def escapeMember (c : Char) : List Char :=
  if c = '\n' then ['\\', 'n']
  else if c = '\r' then ['\\', 'r']
  else if c = '\t' then ['\\', 't']
  else if c = '\\' || c = ']' || c = '^' || c = '-' then ['\\', c]
  else if isControl c then Text.codePointEscape c
  else [c]

/-- A range in the description of a set. -/
def describeRange (range : Char × Char) : List Char :=
  if range.2 = range.1 then escapeMember range.1
  else escapeMember range.1 ++ '-' :: escapeMember range.2

/-- A set as it is named in messages. -/
def describe (set : CharSet) : String :=
  String.ofList
    ('[' :: (if set.negated then ['^'] else []) ++ set.ranges.flatMap describeRange ++ [']'])

end CharSet

end Peg
