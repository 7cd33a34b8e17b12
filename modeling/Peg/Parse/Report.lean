import Peg.Text.Source

/-!
# Reports

How a failure is worded and shown under the line of the text it concerns.

Main results:

- `length_caretPad`: the caret is padded with one character for each character
  in front of it.
-/

namespace Peg.Report

open Text

/-- Names in the way a message lists what was expected. -/
def expectedList : List String → String
  | [] => "nothing"
  | [only] => only
  | [first, second] => first ++ " or " ++ second
  | names => String.intercalate ", " names.dropLast ++ ", or " ++ names.getLastD ""

/-- The part of a line in front of a column; all of the line if the column does
not fall between two of its characters. -/
def beforeColumn (line : List Char) (column : Nat) : List Char :=
  (takeBytes? column line).getD line

/-- What stands in front of the caret: tabs where the line has tabs and spaces
elsewhere, so that both are equally wide. -/
def caretPad (before : List Char) : List Char :=
  before.map fun c => if c = '\t' then '\t' else ' '

/-- The caret is padded with one character for each character in front of it. -/
@[simp] theorem length_caretPad (before : List Char) :
    (caretPad before).length = before.length := by
  simp [caretPad]

/-- A message about a position, and the line of the written text with a caret
under the position. -/
def render (source : Source) (position : Position) (message : String) : String :=
  let line := (source.lines.line? position.line).getD []
  let number := toString (position.line + 1)
  let gutter := String.ofList (List.replicate number.length ' ')
  let pad := String.ofList (caretPad (beforeColumn line position.column))
  String.intercalate "\n"
    ["error: " ++ message ++ " at " ++ toString position,
      gutter ++ " |",
      number ++ " | " ++ String.ofList line,
      gutter ++ " | " ++ pad ++ "^"]

end Peg.Report
