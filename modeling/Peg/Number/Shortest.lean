/-!
# Shortest decimals

Among the decimals that round to a binary number, the shortest one with the
fewest digits stands for it.  A positive binary number is given by a natural
numerator and denominator together with the ends of the interval of numbers
that round to it, over the same denominator.  Grids of powers of ten are tried
from coarse to fine; on each, only the two neighbours of the number can be the
nearest point of the grid inside the interval.

Main results:

- `Target.choose?_mem`: a chosen point lies in the interval.
- `Target.choose?_neighbour`: a chosen point is one of the two neighbours.
-/

namespace Peg.Number

/-- A positive number and the interval of numbers that round to it, as
numerators over one denominator. -/
structure Target where
  /-- Numerator of the number. -/
  value : Nat
  /-- Numerator of the lower end. -/
  low : Nat
  /-- Numerator of the upper end. -/
  high : Nat
  /-- The denominator. -/
  den : Nat
  /-- Whether the ends themselves round to the number. -/
  closed : Bool
  deriving DecidableEq, Repr

/-- The decimal `digits * 10 ^ exponent`. -/
structure Decimal where
  /-- The digits, as one number. -/
  digits : Nat
  /-- The power of ten of the last digit. -/
  exponent : Int
  deriving DecidableEq, Repr, Inhabited

namespace Target

/-- Whether a numerator over a denominator that is scaled like the target lies
in its interval. -/
def contains (target : Target) (numerator : Nat) : Bool :=
  if target.closed then target.low ≤ numerator && numerator ≤ target.high
  else target.low < numerator && numerator < target.high

/-- The target over units of `10 ^ exponent`: numerators are scaled so that a
grid point is a multiple of the denominator. -/
def scale (target : Target) (exponent : Int) : Target :=
  match exponent with
  | .ofNat e => { target with den := target.den * Nat.pow 10 e }
  | .negSucc e =>
    let factor := Nat.pow 10 (e + 1)
    { target with
      value := target.value * factor
      low := target.low * factor
      high := target.high * factor }

/-- The point of the grid of whole numbers that stands for a scaled target: the
nearer of its two neighbours inside the interval, the upper one on a tie. -/
def choose? (target : Target) : Option Nat :=
  let below := target.value / target.den
  let above := below + 1
  let underIn := target.contains (below * target.den)
  let overIn := target.contains (above * target.den)
  if underIn && overIn then
    if target.value - below * target.den < above * target.den - target.value then some below
    else some above
  else if underIn then some below
  else if overIn then some above
  else none

/-- Try grids from coarse to fine, for a given number of grids. -/
def search (target : Target) : Nat → Int → Decimal
  | 0, exponent => ⟨target.value, exponent⟩
  | grids + 1, exponent =>
    match (target.scale exponent).choose? with
    | some digits => ⟨digits, exponent⟩
    | none => search target grids (exponent - 1)

/-- A chosen point lies in the interval. -/
theorem choose?_mem {target : Target} {point : Nat} (h : target.choose? = some point) :
    target.contains (point * target.den) = true := by
  simp only [choose?] at h
  split at h
  next both =>
    simp only [Bool.and_eq_true] at both
    split at h <;> simp only [Option.some.injEq] at h <;> subst h
    · exact both.1
    · exact both.2
  next =>
    split at h
    next below => simp only [Option.some.injEq] at h; subst h; exact below
    next =>
      split at h
      next above => simp only [Option.some.injEq] at h; subst h; exact above
      next => cases h

/-- A chosen point is one of the two neighbours of the number on its grid. -/
theorem choose?_neighbour {target : Target} {point : Nat} (h : target.choose? = some point) :
    point = target.value / target.den ∨ point = target.value / target.den + 1 := by
  simp only [choose?] at h
  repeat' split at h
  all_goals first
    | (simp only [Option.some.injEq] at h; omega)
    | cases h

end Target

/-- Positional notation: digits with a decimal point where it belongs, padded
with zeros on either side, and never an exponent. -/
def Decimal.positional (decimal : Decimal) : String :=
  let digits := Nat.toDigits 10 decimal.digits
  match decimal.exponent with
  | .ofNat e => String.ofList (digits ++ List.replicate e '0')
  | .negSucc e =>
    let places := e + 1
    let padded := List.replicate (places + 1 - digits.length) '0' ++ digits
    let whole := padded.length - places
    String.ofList (padded.take whole ++ '.' :: padded.drop whole)

end Peg.Number
