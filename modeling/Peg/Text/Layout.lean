import Peg.Text.Blank
import Peg.Text.Utf8

/-!
# Indentation markers

Patterns cannot compare the indentation of lines.  A text whose blocks are
shown by indentation is therefore annotated with marker characters: one opening
marker where a line is indented deeper than the innermost open block, one
closing marker for each block a line closes, and one for each block still open
at the end.  The markers are noncharacters, which no real text contains.

An annotated text is a list of segments, each either kept from the written text
or inserted.  An offset in the annotated text is traced back by walking the
segments.

Main results:

- `written_annotate`: leaving the markers out gives back the written text.
- `writtenOffset_plain`: without markers every offset is its own.
-/

namespace Peg.Text

/-- Opens an indented block. -/
def indentMark : Char :=
  '\ufdd0'

/-- Closes an indented block. -/
def dedentMark : Char :=
  '\ufdd1'

/-- How indentation is measured. -/
structure LayoutOptions where
  /-- Distance between tab stops; zero counts as one. -/
  tabWidth : Nat := 4
  /-- Whether lines of white space alone open and close no blocks. -/
  skipBlankLines : Bool := true
  deriving DecidableEq, Repr, Inhabited

/-- A stretch of annotated text. -/
inductive Segment where
  /-- Text as it was written. -/
  | kept (text : List Char)
  /-- Markers put in between. -/
  | inserted (marks : List Char)
  deriving DecidableEq, Repr

namespace Segment

/-- The characters of a segment. -/
def chars : Segment → List Char
  | kept text => text
  | inserted marks => marks

/-- The characters of a segment that were written. -/
def written : Segment → List Char
  | kept text => text
  | inserted _ => []

end Segment

/-- The text that patterns see. -/
def annotatedText (segments : List Segment) : List Char :=
  segments.flatMap Segment.chars

/-- The text as it was written. -/
def writtenText (segments : List Segment) : List Char :=
  segments.flatMap Segment.written

/-- The offset in the written text that belongs to an offset in the annotated
text: the same byte, or the place of insertion for a byte of a marker. -/
def writtenOffset : List Segment → Nat → Nat
  | [], offset => offset
  | .kept text :: segments, offset =>
    if offset < byteSize text then offset
    else byteSize text + writtenOffset segments (offset - byteSize text)
  | .inserted marks :: segments, offset =>
    if offset < byteSize marks then 0
    else writtenOffset segments (offset - byteSize marks)

namespace Layout

/-- Cut a text after every line feed. -/
def splitLines : List Char → List (List Char)
  | [] => []
  | c :: text =>
    if c = '\n' then [c] :: splitLines text
    else
      match splitLines text with
      | [] => [[c]]
      | line :: lines => (c :: line) :: lines

/-- Whether a character indents. -/
def indents (c : Char) : Bool :=
  c == ' ' || c == '\t'

/-- The column after one more indenting character.  Columns are 64-bit words: one
that does not fit wraps around. -/
def advance (tabWidth column : Nat) (c : Char) : Nat :=
  (if c = '\t' then (column / max tabWidth 1 + 1) * max tabWidth 1 else column + 1) %
    UInt64.size

/-- The column that leading blanks reach. -/
def width (tabWidth : Nat) (blanks : List Char) : Nat :=
  blanks.foldl (advance tabWidth) 0

/-- The widths of the open blocks, innermost first, and the markers that bring
them in line with a width: blocks that are wider close, and a new one opens if
the width exceeds what remains. -/
def adjust (levels : List Nat) (width : Nat) : List Nat × List Char :=
  let remaining := levels.dropWhile (width < ·)
  let closing := List.replicate (levels.length - remaining.length) dedentMark
  if remaining.headD 0 < width then (width :: remaining, closing ++ [indentMark])
  else (remaining, closing)

/-- Annotate one line: its markers stand between its blanks and its content. -/
def annotateLine (options : LayoutOptions) (levels : List Nat) (line : List Char) :
    List Nat × List Segment :=
  let blanks := line.takeWhile indents
  let content := line.dropWhile indents
  if options.skipBlankLines && content.all isBlank then (levels, [.kept line])
  else
    let (levels, marks) := adjust levels (width options.tabWidth blanks)
    (levels, [.kept blanks, .inserted marks, .kept content])

/-- Annotate lines below open blocks; the blocks still open at the end close
there. -/
def annotateLines (options : LayoutOptions) : List Nat → List (List Char) → List Segment
  | levels, [] => [.inserted (List.replicate levels.length dedentMark)]
  | levels, line :: lines =>
    let (levels, segments) := annotateLine options levels line
    segments ++ annotateLines options levels lines

/-- Annotate a text with the markers of its indented blocks. -/
def annotate (options : LayoutOptions) (text : List Char) : List Segment :=
  annotateLines options [] (splitLines text)

/-- Cutting a text into lines loses nothing. -/
@[simp] theorem flatten_splitLines (text : List Char) : (splitLines text).flatten = text := by
  induction text with
  | nil => rfl
  | cons c text ih =>
    rw [splitLines]
    split
    next => simp [ih]
    next =>
      split
      next h => simp [h] at ih; simp [← ih]
      next line lines h => simp [h] at ih; simp [← ih]

/-- Annotating a line keeps its text. -/
theorem written_annotateLine (options : LayoutOptions) (levels : List Nat) (line : List Char) :
    writtenText (annotateLine options levels line).2 = line := by
  simp only [annotateLine]
  split
  next => simp [writtenText, Segment.written]
  next => simp [writtenText, Segment.written]

/-- Annotating lines keeps their text. -/
theorem written_annotateLines (options : LayoutOptions) (levels : List Nat)
    (lines : List (List Char)) :
    writtenText (annotateLines options levels lines) = lines.flatten := by
  induction lines generalizing levels with
  | nil => simp [annotateLines, writtenText, Segment.written]
  | cons line lines ih =>
    have hl := written_annotateLine options levels line
    simp only [writtenText] at ih hl ⊢
    simp [annotateLines, ih, hl]

/-- Leaving the markers out of an annotated text gives back what was written. -/
theorem written_annotate (options : LayoutOptions) (text : List Char) :
    writtenText (annotate options text) = text := by
  simp [annotate, written_annotateLines]

end Layout

/-- Without markers every offset is its own. -/
@[simp] theorem writtenOffset_plain (text : List Char) (offset : Nat) :
    writtenOffset [.kept text] offset = offset := by
  simp only [writtenOffset]
  split <;> omega

end Peg.Text
