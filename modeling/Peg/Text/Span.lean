import Peg.Text.Utf8

/-!
# Spans of text

A span is a range of byte offsets, as covered by a match or by a node of a
parse tree.

Main results:

- `Span.slice_append`: the span of a middle part slices to that part.
-/

namespace Peg.Text

/-- A range of byte offsets, `stop` excluded. -/
structure Span where
  /-- Offset of the first byte. -/
  start : Nat
  /-- Offset after the last byte. -/
  stop : Nat
  deriving DecidableEq, Repr, Inhabited

namespace Span

/-- The empty span at an offset. -/
def emptyAt (offset : Nat) : Span :=
  ⟨offset, offset⟩

/-- Number of bytes covered. -/
def size (span : Span) : Nat :=
  span.stop - span.start

/-- Whether nothing is covered. -/
def isEmpty (span : Span) : Bool :=
  span.start == span.stop

/-- Whether the byte at an offset is covered. -/
def contains (span : Span) (offset : Nat) : Bool :=
  span.start ≤ offset && offset < span.stop

/-- The smallest span around two spans. -/
def cover (a b : Span) : Span :=
  ⟨min a.start b.start, max a.stop b.stop⟩

/-- The covered part of a text, empty unless both ends fall between characters
of that text. -/
def slice (span : Span) (text : List Char) : List Char :=
  (slice? span.start span.stop text).getD []

instance : ToString Span where
  toString span := toString span.start ++ ".." ++ toString span.stop

@[simp] theorem isEmpty_emptyAt (offset : Nat) : (emptyAt offset).isEmpty = true := by
  simp [isEmpty, emptyAt]

@[simp] theorem size_emptyAt (offset : Nat) : (emptyAt offset).size = 0 := by
  simp [size, emptyAt]

/-- The span of a middle part slices to that part. -/
theorem slice_append (front middle back : List Char) :
    slice ⟨byteSize front, byteSize front + byteSize middle⟩ (front ++ (middle ++ back)) =
      middle := by
  simp [slice, slice?]

end Span

end Peg.Text
