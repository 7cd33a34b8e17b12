import Peg.Parse.Frontier

/-!
# Frontiers put together

What a stretch of a parse adds to the frontier does not depend on the frontier it
started with.  So a stretch has a frontier of its own, as if it had started with an
empty one, and the frontier after it is the sum of the two.

Main results:

- `Frontier.append_assoc`, `Frontier.empty_append` and `Frontier.append_empty`: sums
  of frontiers.
- `Frontier.record_eq_append` and `Frontier.recordNamed_append`: what is noted is added
  to the frontier of the stretch.
-/

namespace Peg.Frontier

variable {V : Type}

/-- The frontier after two stretches, the second one started afresh: the further of
the two, or both if neither is further. -/
def append (before later : Frontier V) : Frontier V :=
  if before.position < later.position then later
  else if later.position = before.position then
    ⟨before.position, later.tried ++ before.tried⟩
  else before

instance : Append (Frontier V) :=
  ⟨append⟩

/-- A later stretch that got further is all that counts. -/
theorem append_of_lt {a b : Frontier V} (h : a.position < b.position) :
    a ++ b = b :=
  if_pos h

/-- A later stretch that did not get as far does not count. -/
theorem append_of_gt {a b : Frontier V} (h : b.position < a.position) :
    a ++ b = a := by
  change append a b = a
  rw [append, if_neg (Nat.not_lt.2 (Nat.le_of_lt h)), if_neg (Nat.ne_of_lt h)]

/-- Two stretches that got equally far count together, the later one first. -/
theorem append_of_eq {a b : Frontier V} (h : b.position = a.position) :
    a ++ b = ⟨a.position, b.tried ++ a.tried⟩ := by
  change append a b = _
  rw [append, if_neg (h ▸ Nat.lt_irrefl _), if_pos h]

/-- Two stretches get as far as the one that gets further. -/
theorem position_append (before later : Frontier V) :
    (before ++ later).position = max before.position later.position := by
  rcases Nat.lt_trichotomy before.position later.position with hlt | heq | hgt
  · rw [append_of_lt hlt, Nat.max_eq_right (Nat.le_of_lt hlt)]
  · rw [append_of_eq heq.symm, Nat.max_eq_left (Nat.le_of_eq heq.symm)]
  · rw [append_of_gt hgt, Nat.max_eq_left (Nat.le_of_lt hgt)]

/-- What follows an empty frontier is the sum. -/
theorem empty_append (later : Frontier V) : empty ++ later = later := by
  rcases later with ⟨position, tried⟩
  rcases Nat.eq_zero_or_pos position with rfl | hpos
  · simp [append_of_eq, empty]
  · exact append_of_lt hpos

/-- A stretch in which nothing failed adds nothing. -/
theorem append_empty (before : Frontier V) : before ++ empty = before := by
  rcases before with ⟨position, tried⟩
  rcases Nat.eq_zero_or_pos position with rfl | hpos
  · simp [append_of_eq, empty]
  · exact append_of_gt hpos

/-- Stretches may be put together in any way. -/
theorem append_assoc (a b c : Frontier V) : a ++ b ++ c = a ++ (b ++ c) := by
  rcases Nat.lt_trichotomy a.position b.position with hab | hab | hab
  · have hsum : a.position < (b ++ c).position := by
      rw [position_append]
      omega
    rw [append_of_lt hab, append_of_lt hsum]
  · rw [append_of_eq hab.symm]
    rcases Nat.lt_trichotomy b.position c.position with hbc | hbc | hbc
    · rw [append_of_lt hbc, append_of_lt (hab ▸ hbc), append_of_lt (hab ▸ hbc)]
    · rw [append_of_eq hbc.symm, append_of_eq (hab ▸ hbc.symm),
        append_of_eq (b := ⟨_, c.tried ++ b.tried⟩) hab.symm, List.append_assoc]
    · rw [append_of_gt hbc, append_of_gt (hab ▸ hbc), append_of_eq hab.symm]
  · rw [append_of_gt hab]
    rcases Nat.lt_trichotomy b.position c.position with hbc | hbc | hbc
    · rw [append_of_lt hbc]
    · rw [append_of_eq hbc.symm, append_of_gt (hbc ▸ hab),
        append_of_gt (b := ⟨_, c.tried ++ b.tried⟩) hab]
    · rw [append_of_gt hbc, append_of_gt (Nat.lt_trans hbc hab), append_of_gt hab]

/-- A failure by itself. -/
theorem record_eq_append (frontier : Frontier V) (offset : Nat) (expected : Expected V) :
    frontier.record offset expected = frontier ++ ⟨offset, [expected]⟩ := by
  unfold record
  split
  next hlt => rw [append_of_lt hlt]
  next hle =>
      split
      next heq => rw [append_of_eq heq, ← heq, List.singleton_append]
      next hne => rw [append_of_gt (Nat.lt_of_le_of_ne (Nat.not_lt.1 hle) hne)]

/-- The frontier of a stretch at whose end a rule or label is noted that started where
the stretch did. -/
def named (frontier : Frontier V) (start : Nat) (expected : Expected V) : Frontier V :=
  if start < frontier.position then frontier else ⟨start, [expected]⟩

/-- A rule or label is not noted behind what failed further on. -/
theorem named_of_lt {frontier : Frontier V} {start : Nat} (h : start < frontier.position)
    (expected : Expected V) : frontier.named start expected = frontier :=
  if_pos h

/-- A rule or label takes the place of what failed where it started. -/
theorem named_of_le {frontier : Frontier V} {start : Nat} (h : frontier.position ≤ start)
    (expected : Expected V) : frontier.named start expected = ⟨start, [expected]⟩ :=
  if_neg (Nat.not_lt.2 h)

/-- A rule or label noted at the end of a stretch is part of the frontier of the stretch. -/
theorem recordNamed_append (before later : Frontier V) (start : Nat) (expected : Expected V) :
    (before ++ later).recordNamed start before expected =
      before ++ later.named start expected := by
  have hposition := position_append before later
  by_cases hlater : start < later.position
  · rw [named_of_lt hlater, recordNamed_of_lt]
    omega
  · have hle := Nat.not_lt.1 hlater
    rw [named_of_le hle]
    rcases Nat.lt_trichotomy before.position start with hlt | heq | hgt
    · rw [recordNamed, if_neg (by omega), if_neg (Nat.ne_of_lt hlt)]
      rw [append_of_lt (b := ⟨start, [expected]⟩) hlt]
    · rw [recordNamed, if_neg (by omega), if_pos heq]
      rw [append_of_eq (b := ⟨start, [expected]⟩) heq.symm, heq, List.singleton_append]
    · rw [recordNamed_of_lt (by omega), append_of_gt (Nat.lt_of_le_of_lt hle hgt)]
      rw [append_of_gt (b := ⟨start, [expected]⟩) hgt]

/-- A rule or label that fails by itself. -/
theorem recordNamed_self (frontier : Frontier V) (start : Nat) (expected : Expected V) :
    frontier.recordNamed start frontier expected = frontier ++ ⟨start, [expected]⟩ := by
  have hsum := recordNamed_append frontier empty start expected
  rwa [append_empty, named_of_le (Nat.zero_le start)] at hsum

end Peg.Frontier
