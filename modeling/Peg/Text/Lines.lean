import Peg.Text.Span

/-!
# Lines of a text

A line ends with a line feed, a carriage return, or the two in this order.  The
module lists where lines start and turns a byte offset into a line and a column.

Main results:

- `Lines.starts_ofText`: the first line starts the text, every other line
  starts where a terminator ends.
- `terminatorEnds_append`: the starts of lines behind a leading part without
  terminators.
-/

namespace Peg.Text

/-- Whether a character belongs to a line terminator. -/
def isTerminator (c : Char) : Bool :=
  c == '\n' || c == '\r'

/-- The offsets right after each line terminator of a text whose first byte has
the given offset. -/
def terminatorEnds : Nat → List Char → List Nat
  | _, [] => []
  | offset, '\r' :: '\n' :: text => (offset + 2) :: terminatorEnds (offset + 2) text
  | offset, c :: text =>
    if isTerminator c then (offset + c.utf8Size) :: terminatorEnds (offset + c.utf8Size) text
    else terminatorEnds (offset + c.utf8Size) text

/-- A place in a text by line and column, both counted from zero; columns count
bytes. -/
structure LineColumn where
  /-- Number of lines in front of this one. -/
  line : Nat
  /-- Number of bytes of this line in front of the place. -/
  column : Nat
  deriving DecidableEq, Repr, Inhabited

/-- A text with the offsets its lines start at. -/
structure Lines where
  /-- The text. -/
  text : List Char
  /-- Number of bytes in the text. -/
  size : Nat
  /-- Offset of the first byte of each line. -/
  starts : List Nat
  deriving Repr, Inhabited

namespace Lines

/-- The lines of a text. -/
def ofText (text : List Char) : Lines :=
  ⟨text, byteSize text, 0 :: terminatorEnds 0 text⟩

/-- The first line starts the text, every other line starts where a terminator
ends. -/
@[simp] theorem starts_ofText (text : List Char) :
    (ofText text).starts = 0 :: terminatorEnds 0 text :=
  rfl

@[simp] theorem size_ofText (text : List Char) : (ofText text).size = byteSize text :=
  rfl

/-- Number of lines; a text that ends in a terminator has an empty last line. -/
def count (lines : Lines) : Nat :=
  lines.starts.length

/-- Offset of the first byte of a line. -/
def start? (lines : Lines) (line : Nat) : Option Nat :=
  lines.starts[line]?

/-- The line of a byte offset; offsets beyond the text are taken as its end. -/
def lineAt (lines : Lines) (offset : Nat) : Nat :=
  (lines.starts.filter (· ≤ min offset lines.size)).length - 1

/-- The number of bytes of its line in front of a byte offset; offsets beyond the
text are taken as its end. -/
def columnAt (lines : Lines) (offset : Nat) : Nat :=
  min offset lines.size - (lines.start? (lines.lineAt offset)).getD 0

/-- The line and column of a byte offset, in 32-bit words: those that do not fit
are taken as the greatest number that does. -/
def lineColumn (lines : Lines) (offset : Nat) : LineColumn :=
  ⟨min (lines.lineAt offset) (UInt32.size - 1), min (lines.columnAt offset) (UInt32.size - 1)⟩

/-- The span of a line without its terminator. -/
def span? (lines : Lines) (line : Nat) : Option Span :=
  (lines.start? line).map fun start =>
    let stop := (lines.start? (line + 1)).getD lines.size
    let content := (Span.slice ⟨start, stop⟩ lines.text).reverse.dropWhile isTerminator
    ⟨start, start + byteSize content⟩

/-- The text of a line without its terminator. -/
def line? (lines : Lines) (line : Nat) : Option (List Char) :=
  (lines.span? line).map (·.slice lines.text)

end Lines

/-- A leading part without terminators only moves the lines behind it. -/
theorem terminatorEnds_append (offset : Nat) (front back : List Char)
    (plain : ∀ c ∈ front, isTerminator c = false) :
    terminatorEnds offset (front ++ back) = terminatorEnds (offset + byteSize front) back := by
  induction front generalizing offset with
  | nil => simp
  | cons c front ih =>
    have hc : isTerminator c = false := plain c (by simp)
    have hr : c ≠ '\r' := by rintro rfl; simp [isTerminator] at hc
    rw [List.cons_append, terminatorEnds.eq_3 _ _ _ (by intro _ h; exact absurd h hr)]
    simp only [hc, Bool.false_eq_true, if_false]
    rw [ih _ (fun d hd => plain d (by simp [hd]))]
    simp [Nat.add_assoc]

end Peg.Text
