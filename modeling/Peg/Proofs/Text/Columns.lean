import Mathlib
import Peg.Text.Layout

/-!
# Columns behind blanks

Blanks at the start of a line reach a column: a space goes one column further, and a tab goes to
the next tab stop.  This is said here character by character, without the quotient by which the
column is computed.  Columns are kept in 64-bit words and wrap around on the way, so there are two
ways of counting them.  They agree wherever the column itself fits.

Main results:

- `nextStop_mul`: the quotient gives the next tab stop.
- `reaches_iff_width`: the width of blanks is the column they reach in 64-bit words.
- `Reaches.width_eq`: it is the column they reach, if that fits.
-/

namespace Peg.Text.Layout

variable {blanks : List Char} {tabWidth column stop : Nat} {word : Nat → Nat} {c : Char}

/-! ## Tab stops -/

/-- The tab stop behind a column is the first multiple of the distance between tab stops that is
greater.  A distance of zero counts as one. -/
def NextStop (tabWidth column stop : Nat) : Prop :=
  IsLeast {multiple | column < multiple ∧ max tabWidth 1 ∣ multiple} stop

/-- The quotient counts the tab stops up to a column, so the next one is that many distances, and
one more, from the start of the line. -/
theorem nextStop_mul (tabWidth column : Nat) :
    NextStop tabWidth column ((column / max tabWidth 1 + 1) * max tabWidth 1) := by
  have hpos : 0 < max tabWidth 1 := Nat.lt_of_lt_of_le Nat.one_pos (Nat.le_max_right _ _)
  refine ⟨⟨?_, Nat.dvd_mul_left _ _⟩, ?_⟩
  · rw [Nat.mul_comm]
    exact Nat.lt_mul_div_succ column hpos
  · rintro multiple ⟨hbehind, count, rfl⟩
    have hcount : column / max tabWidth 1 < count := Nat.div_lt_of_lt_mul hbehind
    rw [Nat.mul_comm]
    exact Nat.mul_le_mul_left _ hcount

/-! ## Columns -/

/-- The column that blanks reach from the start of a line, if columns are kept in words of some
kind: of each number a word keeps what the function says. -/
inductive Reaches (tabWidth : Nat) (word : Nat → Nat) : List Char → Nat → Prop where
  /-- The start of the line has nothing in front of it. -/
  | start : Reaches tabWidth word [] 0
  /-- A space goes one column further. -/
  | space {blanks : List Char} {column : Nat} (h : Reaches tabWidth word blanks column) :
    Reaches tabWidth word (blanks ++ [' ']) (word (column + 1))
  /-- A tab goes to the next tab stop. -/
  | tab {blanks : List Char} {column stop : Nat} (h : Reaches tabWidth word blanks column)
    (hstop : NextStop tabWidth column stop) :
    Reaches tabWidth word (blanks ++ ['\t']) (word stop)

/-- Lines are indented by spaces and tabs. -/
theorem indents_eq_true_iff : indents c = true ↔ c = ' ' ∨ c = '\t' := by
  rw [indents, Bool.or_eq_true, beq_iff_eq, beq_iff_eq]

/-- Blanks reach some column. -/
theorem exists_reaches (tabWidth : Nat) (word : Nat → Nat) (h : ∀ c ∈ blanks, indents c = true) :
    ∃ column, Reaches tabWidth word blanks column := by
  -- Columns are counted from the front, so the induction takes the last blank off.
  induction blanks using List.reverseRecOn with
  | nil => exact ⟨0, .start⟩
  | append_singleton blanks c ih =>
      rcases ih fun d hd => h d (List.mem_append_left _ hd) with ⟨column, hcolumn⟩
      have hc := indents_eq_true_iff.1 (h c (List.mem_append_right _ List.mem_cons_self))
      rcases hc with rfl | rfl
      · exact ⟨_, hcolumn.space⟩
      · exact ⟨_, hcolumn.tab (nextStop_mul tabWidth column)⟩

/-- A last blank advances the column by itself. -/
theorem width_append_singleton (tabWidth : Nat) (blanks : List Char) (c : Char) :
    width tabWidth (blanks ++ [c]) = advance tabWidth (width tabWidth blanks) c :=
  List.foldl_append

theorem advance_space (tabWidth column : Nat) :
    advance tabWidth column ' ' = (column + 1) % 2 ^ 64 :=
  rfl

/-- A tab advances a column to the next tab stop, which a word may not hold. -/
theorem NextStop.advance_tab (h : NextStop tabWidth column stop) :
    advance tabWidth column '\t' = stop % 2 ^ 64 := by
  rw [h.unique (nextStop_mul tabWidth column)]
  rfl

/-- The column that blanks reach in 64-bit words is their width. -/
theorem Reaches.width_word (h : Reaches tabWidth (· % 2 ^ 64) blanks column) :
    width tabWidth blanks = column := by
  induction h with
  | start => rfl
  | space _ ih => rw [width_append_singleton, ih, advance_space]
  | tab _ hstop ih => rw [width_append_singleton, ih, hstop.advance_tab]

/-- In 64-bit words the width of blanks is the only column they reach. -/
theorem reaches_iff_width (h : ∀ c ∈ blanks, indents c = true) :
    Reaches tabWidth (· % 2 ^ 64) blanks column ↔ width tabWidth blanks = column := by
  refine ⟨Reaches.width_word, ?_⟩
  rintro rfl
  rcases exists_reaches tabWidth (· % 2 ^ 64) h with ⟨column, hcolumn⟩
  rw [hcolumn.width_word]
  exact hcolumn

/-- The width of blanks is the column they reach, if that fits into 64 bits: no column on the way
to it is greater. -/
theorem Reaches.width_eq (h : Reaches tabWidth id blanks column) (hfits : column < 2 ^ 64) :
    width tabWidth blanks = column := by
  induction h with
  | start => rfl
  | space _ ih =>
      have hless := Nat.lt_of_succ_lt hfits
      rw [width_append_singleton, ih hless, advance_space]
      exact Nat.mod_eq_of_lt hfits
  | tab _ hstop ih =>
      have hless := Nat.lt_trans hstop.1.1 hfits
      rw [width_append_singleton, ih hless, hstop.advance_tab]
      exact Nat.mod_eq_of_lt hfits

end Peg.Text.Layout
