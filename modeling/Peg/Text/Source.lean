import Peg.Text.Cursor
import Peg.Text.Layout
import Peg.Text.Lines

/-!
# Parsed texts

A source is a text ready to be parsed: what patterns see, with or without
indentation markers, and what is needed to report an offset in it as a position
in the text as it was written.

Main results:

- `Source.text_plain` and `Source.written_withLayout`: the two ways of making a
  source keep the given text.
- `Source.position_offset_plain`: in a plain source an offset is reported as it
  is, up to the end.
-/

namespace Peg.Text

/-- A place in the written text. -/
structure Position where
  /-- Number of bytes in front of the place. -/
  offset : Nat
  /-- Number of lines in front of the line of the place. -/
  line : Nat
  /-- Number of bytes of that line in front of the place. -/
  column : Nat
  deriving DecidableEq, Repr, Inhabited

/-- Messages count lines and columns from one, in 32-bit words: the number behind
the greatest one is zero. -/
instance : ToString Position where
  toString position :=
    toString ((position.line + 1) % UInt32.size) ++ ":" ++
      toString ((position.column + 1) % UInt32.size)

/-- A text to be parsed. -/
structure Source where
  /-- The text that patterns see. -/
  text : List Char
  /-- Number of bytes patterns see. -/
  size : Nat
  /-- Where that text comes from. -/
  segments : List Segment
  /-- The lines of the text as it was written. -/
  lines : Lines
  deriving Repr, Inhabited

namespace Source

/-- The source of annotated text. -/
def ofSegments (segments : List Segment) : Source where
  text := annotatedText segments
  size := byteSize (annotatedText segments)
  segments := segments
  lines := Lines.ofText (writtenText segments)

/-- The source in which patterns see the text as it is. -/
def plain (text : List Char) : Source :=
  ofSegments [.kept text]

/-- The source in which patterns see the text with indentation markers. -/
def withLayout (options : LayoutOptions) (text : List Char) : Source :=
  ofSegments (Layout.annotate options text)

/-- The text as it was written. -/
def written (source : Source) : List Char :=
  source.lines.text

/-- The offset in the written text that belongs to an offset patterns see. -/
def writtenOffset (source : Source) (offset : Nat) : Nat :=
  Text.writtenOffset source.segments offset

/-- The written place of an offset patterns see; offsets beyond the end are
taken as the end. -/
def position (source : Source) (offset : Nat) : Position :=
  let offset := source.writtenOffset (min offset source.size)
  let place := source.lines.lineColumn offset
  ⟨offset, place.line, place.column⟩

/-- A reading head in front of the source. -/
def cursor (source : Source) : Cursor :=
  Cursor.start source.text

/-- The character patterns see at an offset. -/
def charAt? (source : Source) (offset : Nat) : Option Char :=
  (dropBytes? offset source.text).bind List.head?

@[simp] theorem text_plain (text : List Char) : (plain text).text = text := by
  simp [plain, ofSegments, annotatedText, Segment.chars]

@[simp] theorem size_ofSegments (segments : List Segment) :
    (ofSegments segments).size = byteSize (ofSegments segments).text :=
  rfl

@[simp] theorem written_plain (text : List Char) : (plain text).written = text := by
  simp [plain, ofSegments, written, Lines.ofText, writtenText, Segment.written]

/-- Markers do not change the written text. -/
@[simp] theorem written_withLayout (options : LayoutOptions) (text : List Char) :
    (withLayout options text).written = text := by
  simp [withLayout, ofSegments, written, Lines.ofText, Layout.written_annotate]

/-- In a plain source an offset is reported as it is, up to the end. -/
@[simp] theorem position_offset_plain (text : List Char) (offset : Nat) :
    ((plain text).position offset).offset = min offset (byteSize text) := by
  simp [plain, ofSegments, position, writtenOffset, annotatedText, Segment.chars]

end Source

end Peg.Text
