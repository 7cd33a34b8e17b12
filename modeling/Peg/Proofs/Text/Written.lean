import Peg.Proofs.Expr.Terminal

/-!
# Places in the written text

An offset in the text that patterns see is reported as one in the written text.  Character
boundaries are reported as character boundaries: those between kept characters as their
own, those around markers as the place where the markers were put in.  The end is reported
as the end.

Main results:

- `boundary_writtenOffset`: character boundaries are reported as such.
- `writtenOffset_byteSize`: the end is reported as the end.
- `Source.boundary_position` and `Source.offset_position_byteSize`: so it is for sources.
-/

namespace Peg.Text

/-- An offset at which a character of the text begins, or the text ends. -/
def Boundary (text : List Char) (offset : Nat) : Prop :=
  ∃ front back, text = front ++ back ∧ offset = byteSize front

variable {text front back : List Char} {segments : List Segment} {offset : Nat}

/-- The front of a text is a place in it. -/
theorem boundary_zero (text : List Char) : Boundary text 0 :=
  ⟨[], text, rfl, rfl⟩

/-- No place is behind the end. -/
theorem Boundary.offset_le (h : Boundary text offset) : offset ≤ byteSize text := by
  rcases h with ⟨front, back, rfl, rfl⟩
  rw [byteSize_append]
  exact Nat.le_add_right _ _

/-- A place in the latter of two texts. -/
theorem Boundary.behind (h : Boundary back offset) (front : List Char) :
    Boundary (front ++ back) (byteSize front + offset) := by
  rcases h with ⟨before, after, rfl, rfl⟩
  exact ⟨front ++ before, after, (List.append_assoc _ _ _).symm, (byteSize_append _ _).symm⟩

/-- A place in two texts is in front of the end of the former, or in the latter. -/
theorem boundary_append (h : Boundary (front ++ back) offset) :
    (offset < byteSize front ∧ Boundary front offset) ∨
      (byteSize front ≤ offset ∧ Boundary back (offset - byteSize front)) := by
  rcases h with ⟨before, after, heq, rfl⟩
  rcases List.append_eq_append_iff.1 heq with ⟨rest, rfl, rfl⟩ | ⟨rest, rfl, rfl⟩
  · right
    rw [byteSize_append, Nat.add_sub_cancel_left]
    exact ⟨Nat.le_add_right _ _, rest, after, rfl, rfl⟩
  · by_cases hrest : rest = []
    · subst hrest
      right
      rw [List.append_nil, Nat.sub_self]
      exact ⟨Nat.le_refl _, boundary_zero _⟩
    · left
      have hpos : byteSize rest ≠ 0 := fun hzero => hrest ((byteSize_eq_zero_iff rest).1 hzero)
      rw [byteSize_append]
      exact ⟨by omega, before, rest, rfl, rfl⟩

/-- A head within a text stands at a place in it. -/
theorem Cursor.Within.boundary {cursor : Cursor} (h : cursor.Within text) :
    Boundary text cursor.offset := by
  rcases h with ⟨front, htext, hoffset⟩
  exact ⟨front, cursor.rest, htext, hoffset⟩

/-- Nothing follows a place exactly if it is the end. -/
theorem head?_eq_none_iff_byteSize (front rest : List Char) :
    rest.head? = none ↔ byteSize front = byteSize (front ++ rest) := by
  rw [List.head?_eq_none_iff, byteSize_append, ← byteSize_eq_zero_iff]
  omega

/-- What follows a place is read off the text there. -/
theorem Source.exists_charAt? {source : Source} (h : Boundary source.text offset) :
    ∃ front rest, source.text = front ++ rest ∧ offset = byteSize front ∧
      source.charAt? offset = rest.head? := by
  rcases h with ⟨front, rest, htext, rfl⟩
  refine ⟨front, rest, htext, rfl, ?_⟩
  rw [charAt?, htext, dropBytes?_append]
  rfl

/-! ## Annotated texts -/

theorem annotatedText_cons (segment : Segment) (segments : List Segment) :
    annotatedText (segment :: segments) = segment.chars ++ annotatedText segments :=
  List.flatMap_cons

theorem writtenText_cons (segment : Segment) (segments : List Segment) :
    writtenText (segment :: segments) = segment.written ++ writtenText segments :=
  List.flatMap_cons

/-- Character boundaries are reported as character boundaries. -/
theorem boundary_writtenOffset (h : Boundary (annotatedText segments) offset) :
    Boundary (writtenText segments) (writtenOffset segments offset) := by
  induction segments generalizing offset with
  | nil => exact h
  | cons segment segments ih =>
      rw [annotatedText_cons] at h
      rw [writtenText_cons]
      cases segment with
      | kept text =>
          simp only [Segment.chars] at h
          simp only [Segment.written, writtenOffset]
          rcases boundary_append h with ⟨hlt, before, after, htext, hoffset⟩ | ⟨hle, hrest⟩
          · rw [if_pos hlt]
            refine ⟨before, after ++ writtenText segments, ?_, hoffset⟩
            rw [← List.append_assoc, ← htext]
          · rw [if_neg (Nat.not_lt.2 hle)]
            exact (ih hrest).behind text
      | inserted marks =>
          simp only [Segment.chars] at h
          simp only [Segment.written, writtenOffset, List.nil_append]
          rcases boundary_append h with ⟨hlt, -⟩ | ⟨hle, hrest⟩
          · rw [if_pos hlt]
            exact boundary_zero _
          · rw [if_neg (Nat.not_lt.2 hle)]
            exact ih hrest

/-- The end is reported as the end. -/
theorem writtenOffset_byteSize (segments : List Segment) :
    writtenOffset segments (byteSize (annotatedText segments)) =
      byteSize (writtenText segments) := by
  induction segments with
  | nil => rfl
  | cons segment segments ih =>
      rw [annotatedText_cons, writtenText_cons, byteSize_append, byteSize_append]
      cases segment with
      | kept text =>
          rw [writtenOffset, Segment.chars, if_neg (by omega), Nat.add_sub_cancel_left, ih]
          rfl
      | inserted marks =>
          rw [writtenOffset, Segment.chars, if_neg (by omega), Nat.add_sub_cancel_left, ih]
          exact (Nat.zero_add _).symm

/-! ## Sources -/

namespace Source

/-- A place in the text that patterns see is a place in the text as it was written. -/
theorem boundary_position (h : Boundary (ofSegments segments).text offset) :
    Boundary (writtenText segments) ((ofSegments segments).position offset).offset := by
  have hmin : min offset (ofSegments segments).size = offset := Nat.min_eq_left h.offset_le
  change Boundary _ (writtenOffset _ (min offset (ofSegments segments).size))
  rw [hmin]
  exact boundary_writtenOffset h

/-- The end is reported as the end. -/
theorem offset_position_byteSize (segments : List Segment) :
    ((ofSegments segments).position (byteSize (ofSegments segments).text)).offset =
      byteSize (writtenText segments) := by
  change Text.writtenOffset segments (min _ (ofSegments segments).size) = _
  rw [size_ofSegments, Nat.min_self]
  exact writtenOffset_byteSize segments

end Source

end Peg.Text
