/-!
# Byte offsets in text

A text is a list of characters.  Positions in it are counted in bytes of its
UTF-8 form, so this module measures texts in bytes and cuts them at byte
offsets.  A cut is refused unless it falls between two characters.

Main results:

- `byteSize_append`: sizes add up along concatenation.
- `dropBytes?_append` and `takeBytes?_append`: cutting at the end of
  a leading part gives back that part and what follows it.
- `dropBytes?_eq_some_iff`: a cut succeeds exactly at the end of some
  leading part.
-/

namespace Peg.Text

/-- Number of bytes in the UTF-8 form of a text. -/
def byteSize : List Char → Nat
  | [] => 0
  | c :: text => c.utf8Size + byteSize text

@[simp] theorem byteSize_nil : byteSize [] = 0 :=
  rfl

@[simp] theorem byteSize_cons (c : Char) (text : List Char) :
    byteSize (c :: text) = c.utf8Size + byteSize text :=
  rfl

/-- Sizes add up along concatenation. -/
@[simp] theorem byteSize_append (front back : List Char) :
    byteSize (front ++ back) = byteSize front + byteSize back := by
  induction front with
  | nil => simp
  | cons c front ih => simp [ih, Nat.add_assoc]

/-- Only the empty text takes no bytes. -/
@[simp] theorem byteSize_eq_zero_iff (text : List Char) :
    byteSize text = 0 ↔ text = [] := by
  cases text with
  | nil => simp
  | cons c text =>
    have := c.utf8Size_pos
    simp
    omega

/-- What follows the first `count` bytes of a text; `none` when the cut falls
inside a character or beyond the end. -/
def dropBytes? : Nat → List Char → Option (List Char)
  | 0, text => some text
  | _ + 1, [] => none
  | count + 1, c :: text =>
    if c.utf8Size ≤ count + 1 then dropBytes? (count + 1 - c.utf8Size) text else none

/-- The first `count` bytes of a text; `none` when the cut falls inside a
character or beyond the end. -/
def takeBytes? : Nat → List Char → Option (List Char)
  | 0, _ => some []
  | _ + 1, [] => none
  | count + 1, c :: text =>
    if c.utf8Size ≤ count + 1 then
      (takeBytes? (count + 1 - c.utf8Size) text).map (c :: ·)
    else none

/-- The part of a text between two byte offsets; `none` when the offsets are out
of order, out of range or inside a character. -/
def slice? (start stop : Nat) (text : List Char) : Option (List Char) :=
  if start ≤ stop then (dropBytes? start text).bind (takeBytes? (stop - start)) else none

@[simp] theorem dropBytes?_zero (text : List Char) : dropBytes? 0 text = some text := by
  cases text <;> rfl

@[simp] theorem takeBytes?_zero (text : List Char) : takeBytes? 0 text = some [] := by
  cases text <;> rfl

/-- Stepping over one whole character. -/
theorem dropBytes?_cons (count : Nat) (c : Char) (text : List Char) :
    dropBytes? (c.utf8Size + count) (c :: text) = dropBytes? count text := by
  have := c.utf8Size_pos
  obtain ⟨n, h⟩ : ∃ n, c.utf8Size + count = n + 1 := ⟨c.utf8Size + count - 1, by omega⟩
  rw [h, dropBytes?, ← h]
  simp

/-- Keeping one whole character. -/
theorem takeBytes?_cons (count : Nat) (c : Char) (text : List Char) :
    takeBytes? (c.utf8Size + count) (c :: text) = (takeBytes? count text).map (c :: ·) := by
  have := c.utf8Size_pos
  obtain ⟨n, h⟩ : ∃ n, c.utf8Size + count = n + 1 := ⟨c.utf8Size + count - 1, by omega⟩
  rw [h, takeBytes?, ← h]
  simp

/-- Dropping the bytes of a leading part leaves what follows it. -/
@[simp] theorem dropBytes?_append (front back : List Char) :
    dropBytes? (byteSize front) (front ++ back) = some back := by
  induction front with
  | nil => simp
  | cons c front ih => simp [dropBytes?_cons, ih]

/-- Taking the bytes of a leading part gives that part. -/
@[simp] theorem takeBytes?_append (front back : List Char) :
    takeBytes? (byteSize front) (front ++ back) = some front := by
  induction front with
  | nil => simp
  | cons c front ih => simp [takeBytes?_cons, ih]

/-- A cut succeeds exactly at the end of some leading part. -/
theorem dropBytes?_eq_some_iff {count : Nat} {text back : List Char} :
    dropBytes? count text = some back ↔
      ∃ front, text = front ++ back ∧ count = byteSize front := by
  constructor
  · intro h
    induction text generalizing count with
    | nil =>
      cases count with
      | zero => exact ⟨[], by simpa using h, rfl⟩
      | succ n => simp [dropBytes?] at h
    | cons c text ih =>
      cases count with
      | zero => exact ⟨[], by simpa using h, rfl⟩
      | succ n =>
        rw [dropBytes?] at h
        split at h
        next hc =>
          obtain ⟨front, ht, hn⟩ := ih h
          exact ⟨c :: front, by simp [ht], by simp; omega⟩
        next => cases h
  · rintro ⟨front, rfl, rfl⟩
    exact dropBytes?_append front back

end Peg.Text
