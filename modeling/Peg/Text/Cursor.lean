import Peg.Text.LetterCase
import Peg.Text.Utf8

/-!
# Reading heads

A cursor is a byte offset into a text together with what follows it.  Each
reading step either returns the cursor after what it consumed or nothing; a
cursor is a value, so going back to an earlier place is using the earlier
cursor.

Main results:

- `Cursor.Within.eatIf?` and `Cursor.Within.eatAgreeing?`: reading keeps a
  cursor at a character boundary of its text.
- `Cursor.eatLiteral?_eq_some_iff`: a literal is consumed exactly when the text
  continues with it.
-/

namespace Peg.Text

/-- A place in a text. -/
structure Cursor where
  /-- Number of bytes in front of the cursor. -/
  offset : Nat
  /-- The text after the cursor. -/
  rest : List Char
  deriving DecidableEq, Repr, Inhabited

namespace Cursor

/-- The cursor in front of a text. -/
def start (text : List Char) : Cursor :=
  ⟨0, text⟩

/-- Whether nothing follows. -/
def atEnd (cursor : Cursor) : Bool :=
  cursor.rest.isEmpty

/-- The character after the cursor. -/
def current? (cursor : Cursor) : Option Char :=
  cursor.rest.head?

/-- Consume one character if it is acceptable. -/
def eatIf? (accept : Char → Bool) : Cursor → Option Cursor
  | ⟨_, []⟩ => none
  | ⟨offset, c :: rest⟩ => if accept c then some ⟨offset + c.utf8Size, rest⟩ else none

/-- Consume one character for each character of a literal, as long as the two
agree. -/
def eatAgreeing? (agree : Char → Char → Bool) : List Char → Cursor → Option Cursor
  | [], cursor => some cursor
  | _ :: _, ⟨_, []⟩ => none
  | expected :: literal, ⟨offset, c :: rest⟩ =>
    if agree c expected then eatAgreeing? agree literal ⟨offset + c.utf8Size, rest⟩ else none

/-- Consume a literal. -/
def eatLiteral? (literal : List Char) (cursor : Cursor) : Option Cursor :=
  cursor.eatAgreeing? (· == ·) literal

/-- Consume a text that equals a literal but for letter case. -/
def eatLiteralIgnoringCase? (literal : List Char) (cursor : Cursor) : Option Cursor :=
  cursor.eatAgreeing? sameLetter literal

/-- The cursor stands at a character boundary of a text, in front of exactly
what follows there. -/
def Within (text : List Char) (cursor : Cursor) : Prop :=
  ∃ front, text = front ++ cursor.rest ∧ cursor.offset = byteSize front

/-- Reading starts at a boundary. -/
theorem within_start (text : List Char) : (start text).Within text :=
  ⟨[], rfl, rfl⟩

/-- Consuming a character keeps a cursor at a boundary. -/
theorem Within.eatIf? {text : List Char} {accept : Char → Bool} {a b : Cursor}
    (h : a.Within text) (step : a.eatIf? accept = some b) : b.Within text := by
  obtain ⟨offset, rest⟩ := a
  obtain ⟨front, ht, ho⟩ := h
  cases rest with
  | nil => simp [Cursor.eatIf?] at step
  | cons c rest =>
    simp only [Cursor.eatIf?] at step
    split at step
    next =>
      cases step
      refine ⟨front ++ [c], ?_, ?_⟩
      · simpa using ht
      · simpa using ho
    next => cases step

/-- Consuming a literal keeps a cursor at a boundary. -/
theorem Within.eatAgreeing? {text : List Char} {agree : Char → Char → Bool}
    {literal : List Char} {a b : Cursor} (h : a.Within text)
    (step : a.eatAgreeing? agree literal = some b) : b.Within text := by
  induction literal generalizing a with
  | nil =>
    simp only [Cursor.eatAgreeing?, Option.some.injEq] at step
    exact step ▸ h
  | cons expected literal ih =>
    obtain ⟨offset, rest⟩ := a
    obtain ⟨front, ht, ho⟩ := h
    cases rest with
    | nil => simp [Cursor.eatAgreeing?] at step
    | cons c rest =>
      simp only [Cursor.eatAgreeing?] at step
      split at step
      next =>
        refine ih ⟨front ++ [c], ?_, ?_⟩ step
        · simpa using ht
        · simpa using ho
      next => cases step

/-- A literal is consumed exactly when the text continues with it. -/
theorem eatLiteral?_eq_some_iff {literal : List Char} {a b : Cursor} :
    a.eatLiteral? literal = some b ↔
      a.rest = literal ++ b.rest ∧ b.offset = a.offset + byteSize literal := by
  induction literal generalizing a with
  | nil =>
    obtain ⟨o, r⟩ := a
    obtain ⟨o', r'⟩ := b
    simp [eatLiteral?, eatAgreeing?, and_comm, eq_comm]
  | cons expected literal ih =>
    obtain ⟨o, r⟩ := a
    cases r with
    | nil => simp [eatLiteral?, eatAgreeing?]
    | cons c r =>
      simp only [eatLiteral?, eatAgreeing?, beq_iff_eq] at ih ⊢
      split
      next h =>
        subst h
        rw [ih]
        simp [Nat.add_assoc]
      next h => simp [h]

end Cursor

end Peg.Text
