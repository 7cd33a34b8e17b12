import Peg.Number.Shortest

/-!
# Double-precision numbers

Floating-point numbers of 64 bits, kept as their bits.  The module compares
them, makes them from integers and writes them as the shortest decimal that
reads back, in positional notation.

Main results:

- `ieeeEq_zero_negZero` and `ieeeEq_eq_false_of_isNaN`: the two zeros are equal
  and what is not a number equals nothing.
-/

namespace Peg.Number

/-- A double-precision number. -/
structure Binary64 where
  /-- Sign, exponent and fraction, most significant first. -/
  bits : UInt64
  deriving DecidableEq, Repr, Inhabited

namespace Binary64

/-- Whether the sign bit is set. -/
def negative (x : Binary64) : Bool :=
  x.bits >>> 63 == 1

/-- The exponent field. -/
def exponentField (x : Binary64) : Nat :=
  (x.bits >>> 52 &&& 0x7FF).toNat

/-- The fraction field. -/
def fraction (x : Binary64) : Nat :=
  (x.bits &&& 0xFFFFFFFFFFFFF).toNat

/-- Whether the bits stand for no number. -/
def isNaN (x : Binary64) : Bool :=
  x.exponentField == 2047 && x.fraction != 0

/-- Whether the bits stand for an infinity. -/
def isInfinite (x : Binary64) : Bool :=
  x.exponentField == 2047 && x.fraction == 0

/-- Whether the bits stand for zero of either sign. -/
def isZero (x : Binary64) : Bool :=
  x.exponentField == 0 && x.fraction == 0

/-- Equality of the numbers: zeros are equal whatever their signs, and what is
not a number equals nothing. -/
def ieeeEq (x y : Binary64) : Bool :=
  !x.isNaN && !y.isNaN && (x == y || (x.isZero && y.isZero))

/-- The size of a finite number is `significand * 2 ^ scale`. -/
def significand (x : Binary64) : Nat :=
  if x.exponentField = 0 then x.fraction else 1 <<< 52 + x.fraction

/-- The power of two of the last place of a finite number. -/
def scale (x : Binary64) : Int :=
  max x.exponentField 1 - 1075

/-- The size of a finite number other than zero with the interval that rounds to
it, in quarters of the last place: half a place on either side, but only a
quarter below a power of two. -/
def target (x : Binary64) : Target :=
  let quarter := x.scale - 2
  let factor := 1 <<< quarter.toNat
  let four := 4 * x.significand
  let below := if x.fraction = 0 && 1 < x.exponentField then 1 else 2
  { value := four * factor
    low := (four - below) * factor
    high := (four + 2) * factor
    den := 1 <<< (-quarter).toNat
    closed := x.significand % 2 == 0 }

/-- The shortest decimal that rounds to the size of a finite number other than
zero. -/
def shortest (x : Binary64) : Decimal :=
  let magnitude : Int := (x.significand.log2 : Int) + 1 + x.scale
  let coarsest : Int := (magnitude * 30103).fdiv 100000 + 1
  x.target.search 25 coarsest

/-- A number in positional notation with as few digits as read back. -/
def toText (x : Binary64) : String :=
  if x.isNaN then "NaN"
  else
    let sign := if x.negative then "-" else ""
    if x.isInfinite then sign ++ "inf"
    else if x.isZero then sign ++ "0"
    else sign ++ x.shortest.positional

/-- The number nearest to a natural number below `2 ^ 64`, the even one of two
that are equally near, without its sign. -/
def bitsOfNat (n : Nat) : Nat :=
  if n = 0 then 0
  else
    let excess := n.log2 - 52
    let kept := n <<< (52 - n.log2) >>> excess
    let lost := n % 1 <<< excess
    let half := 1 <<< excess / 2
    let up := excess ≠ 0 ∧ (half < lost ∨ (half = lost ∧ kept % 2 = 1))
    let rounded := if up then kept + 1 else kept
    (n.log2 + 1022) <<< 52 + rounded

/-- The number nearest to an integer of 64 bits. -/
def ofInt64 (n : Int64) : Binary64 :=
  let size := UInt64.ofNat (bitsOfNat n.toInt.natAbs)
  ⟨if n < 0 then size + 0x8000000000000000 else size⟩

/-- The two zeros are equal. -/
theorem ieeeEq_zero_negZero : ieeeEq ⟨0⟩ ⟨0x8000000000000000⟩ = true := by
  decide

/-- What is not a number equals nothing. -/
theorem ieeeEq_eq_false_of_isNaN {x : Binary64} (h : x.isNaN = true) (y : Binary64) :
    x.ieeeEq y = false := by
  simp [ieeeEq, h]

end Binary64

end Peg.Number
