import Peg.Proofs.Parse.FrontierSum

/-!
# What a list of misses is summed up to

A miss is a terminal that did not match, or a rule or label that failed, at an offset and
inside of other rules and labels that failed.  Misses are summed up at the furthest of
their offsets: what was tried there, but for what is inside of a rule or label that failed
and started there too.  The frontier of a parse does this step by step.

Main results:

- `summary_append`: the summary of a stretch followed by another is the sum of theirs.
- `summary_close`: a rule or label that failed stands for what was tried in it where it
  started.
-/

namespace Peg

variable {V : Type}

/-- Something that was tried and did not match, as it happened. -/
structure Miss (V : Type) where
  /-- What was tried. -/
  expected : Expected V
  /-- Where it was tried. -/
  offset : Nat
  /-- The offsets at which the failed rules and labels around it had started, outermost
  first. -/
  within : List Nat

namespace Miss

/-- A miss inside of a rule or label that failed. -/
def inside (start : Nat) (miss : Miss V) : Miss V :=
  { miss with within := start :: miss.within }

/-- The misses of a rule or label that failed, given those in it. -/
def close (name : Expected V) (start : Nat) (missed : List (Miss V)) : List (Miss V) :=
  missed.map (inside start) ++ [⟨name, start, []⟩]

/-- The furthest offset of some misses. -/
def furthest (missed : List (Miss V)) : Nat :=
  missed.foldr (fun miss position => max miss.offset position) 0

/-- The misses that count at an offset, in the order they happened: those that are there,
unless a rule or label that failed and started there stands for them. -/
def countingAt (position : Nat) (missed : List (Miss V)) : List (Miss V) :=
  missed.filter fun miss => miss.offset = position ∧ position ∉ miss.within

/-- The misses that count at the furthest offset, as a frontier. -/
def summary (missed : List (Miss V)) : Frontier V :=
  ⟨furthest missed, ((countingAt (furthest missed) missed).map Miss.expected).reverse⟩

variable {missed later : List (Miss V)} {miss : Miss V} {position : Nat}

/-! ## The furthest offset -/

/-- No miss is further than the furthest one. -/
theorem le_furthest (h : miss ∈ missed) : miss.offset ≤ furthest missed := by
  induction missed with
  | nil => cases h
  | cons first missed ih =>
      rcases List.mem_cons.1 h with rfl | h
      · exact Nat.le_max_left _ _
      · exact Nat.le_trans (ih h) (Nat.le_max_right _ _)

/-- The furthest offset is one of the offsets, if there are any. -/
theorem exists_offset_eq_furthest (h : missed ≠ []) :
    ∃ miss ∈ missed, miss.offset = furthest missed := by
  induction missed with
  | nil => exact absurd rfl h
  | cons first missed ih =>
      rcases Nat.le_total (furthest missed) first.offset with hle | hle
      · exact ⟨first, List.mem_cons_self, (Nat.max_eq_left hle).symm⟩
      · have hfurthest : furthest (first :: missed) = furthest missed := Nat.max_eq_right hle
        by_cases hmore : missed = []
        · subst hmore
          exact ⟨first, List.mem_cons_self, (Nat.max_zero _).symm⟩
        · rcases ih hmore with ⟨miss, hmem, hoffset⟩
          exact ⟨miss, List.mem_cons_of_mem _ hmem, hoffset.trans hfurthest.symm⟩

/-- The furthest of two stretches is the further of theirs. -/
theorem furthest_append (missed later : List (Miss V)) :
    furthest (missed ++ later) = max (furthest missed) (furthest later) := by
  induction missed with
  | nil => exact (Nat.zero_max _).symm
  | cons first missed ih =>
      change max first.offset (furthest (missed ++ later)) = _
      rw [ih, ← Nat.max_assoc]
      rfl

/-- What misses are inside of does not move them. -/
theorem furthest_map_inside (start : Nat) (missed : List (Miss V)) :
    furthest (missed.map (inside start)) = furthest missed := by
  induction missed with
  | nil => rfl
  | cons first missed ih => exact congrArg (max first.offset) ih

/-- A rule or label that failed may itself be the furthest, if nothing was tried behind its start.
-/
theorem furthest_close (name : Expected V) (start : Nat) (missed : List (Miss V)) :
    furthest (close name start missed) = max (furthest missed) start := by
  rw [close, furthest_append, furthest_map_inside]
  exact congrArg (max _) (Nat.max_zero start)

/-! ## What counts -/

theorem countingAt_append (position : Nat) (missed later : List (Miss V)) :
    countingAt position (missed ++ later) =
      countingAt position missed ++ countingAt position later :=
  List.filter_append ..

/-- Nothing counts beyond the furthest offset. -/
theorem countingAt_of_furthest_lt (h : furthest missed < position) :
    countingAt position missed = [] := by
  refine List.filter_eq_nil_iff.2 fun miss hmiss hcounts => ?_
  have hle := le_furthest hmiss
  have hoffset : miss.offset = position := (of_decide_eq_true hcounts).1
  omega

/-- Inside of a failed rule or label the same counts as outside, except where it
started. -/
theorem countingAt_map_inside {start : Nat} (h : position ≠ start) (missed : List (Miss V)) :
    (countingAt position (missed.map (inside start))).map expected =
      (countingAt position missed).map expected := by
  have hcounts : ∀ miss ∈ missed,
      decide (miss.offset = position ∧ position ∉ start :: miss.within) =
        decide (miss.offset = position ∧ position ∉ miss.within) := by
    intro miss _
    simp [h]
  rw [countingAt, List.filter_map, List.map_map, countingAt, ← List.filter_congr hcounts]
  rfl

/-- Where a failed rule or label started nothing inside of it counts. -/
theorem countingAt_map_inside_self (start : Nat) (missed : List (Miss V)) :
    countingAt start (missed.map (inside start)) = [] := by
  refine List.filter_eq_nil_iff.2 fun miss hmiss hcounts => ?_
  rcases List.mem_map.1 hmiss with ⟨inner, -, rfl⟩
  exact (of_decide_eq_true hcounts).2 List.mem_cons_self

/-! ## Summaries -/

theorem summary_nil : summary ([] : List (Miss V)) = .empty :=
  rfl

/-- One miss is summed up as itself. -/
theorem summary_singleton (expected : Expected V) (offset : Nat) :
    summary [⟨expected, offset, []⟩] = ⟨offset, [expected]⟩ := by
  have hfurthest : furthest [(⟨expected, offset, []⟩ : Miss V)] = offset := Nat.max_zero _
  rw [summary, hfurthest]
  simp [countingAt]

/-- The summary of a stretch followed by another is the sum of theirs. -/
theorem summary_append (missed later : List (Miss V)) :
    summary (missed ++ later) = summary missed ++ summary later := by
  have hfurthest := furthest_append missed later
  rcases Nat.lt_trichotomy (furthest missed) (furthest later) with hlt | heq | hgt
  · rw [Frontier.append_of_lt hlt]
    rw [summary, hfurthest, Nat.max_eq_right (Nat.le_of_lt hlt), countingAt_append,
      countingAt_of_furthest_lt hlt]
    rfl
  · rw [Frontier.append_of_eq heq.symm]
    rw [summary, hfurthest, heq, Nat.max_self, countingAt_append, List.map_append,
      List.reverse_append, summary, summary, heq]
  · rw [Frontier.append_of_gt hgt]
    rw [summary, hfurthest, Nat.max_eq_left (Nat.le_of_lt hgt), countingAt_append,
      countingAt_of_furthest_lt hgt, List.append_nil]
    rfl

/-- A rule or label that failed stands for what was tried in it where it started. -/
theorem summary_close (name : Expected V) (start : Nat) (missed : List (Miss V)) :
    summary (close name start missed) = (summary missed).named start name := by
  have hfurthest := furthest_close name start missed
  rcases Nat.lt_or_ge start (furthest missed) with hlt | hle
  · rw [Frontier.named_of_lt hlt]
    rw [summary, hfurthest, Nat.max_eq_left (Nat.le_of_lt hlt), close, countingAt_append,
      List.map_append, countingAt_map_inside (Nat.ne_of_gt hlt)]
    simp [countingAt, summary, Nat.ne_of_lt hlt]
  · rw [Frontier.named_of_le hle]
    rw [summary, hfurthest, Nat.max_eq_right hle, close, countingAt_append,
      countingAt_map_inside_self]
    simp [countingAt]

end Miss

end Peg
