import Peg.Text.Visible

/-!
# Quoted text

Characters and texts as they are shown in messages: between quotes, with the
quote, the backslash and every character that is not visible written as an
escape.

Main results:

- `escape_of_isVisible`: a visible character other than the quote and the
  backslash stands for itself.
-/

namespace Peg.Text

/-- A code point in lower-case hexadecimal digits without padding, in the form
of an escape. -/
def codePointEscape (c : Char) : List Char :=
  ['\\', 'u', '\x7b'] ++ Nat.toDigits 16 c.toNat ++ ['\x7d']

/-- One character inside quotes. -/
def escape (quote c : Char) : List Char :=
  if c = '\x00' then ['\\', '0']
  else if c = '\t' then ['\\', 't']
  else if c = '\r' then ['\\', 'r']
  else if c = '\n' then ['\\', 'n']
  else if c = '\\' || c = quote then ['\\', c]
  else if isVisible c then [c]
  else codePointEscape c

/-- A character between single quotes. -/
def quoteChar (c : Char) : String :=
  String.ofList ('\'' :: escape '\'' c ++ ['\''])

/-- A text between double quotes. -/
def quoteString (text : String) : String :=
  String.ofList ('"' :: text.toList.flatMap (escape '"') ++ ['"'])

/-- A visible character other than the quote and the backslash stands for
itself. -/
theorem escape_of_isVisible {quote c : Char} (visible : isVisible c = true)
    (quote_ne : c ≠ quote) (backslash_ne : c ≠ '\\') : escape quote c = [c] := by
  have h0 : c ≠ '\x00' := by rintro rfl; exact absurd visible (by decide)
  have h1 : c ≠ '\t' := by rintro rfl; exact absurd visible (by decide)
  have h2 : c ≠ '\r' := by rintro rfl; exact absurd visible (by decide)
  have h3 : c ≠ '\n' := by rintro rfl; exact absurd visible (by decide)
  simp [escape, h0, h1, h2, h3, visible, quote_ne, backslash_ne]

end Peg.Text
