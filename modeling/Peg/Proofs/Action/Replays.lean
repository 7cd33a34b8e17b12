import Peg.Proofs.Action.Course

/-!
# Journals that find their places

An entry of a journal names a place of the stack, and the entries are replayed newest first.
Whatever actions and closed probes have done to a stack, every entry finds its place when its
turn comes, up to the entries of the outermost open probe.

Depths count from the top and indices from the bottom: in a row of values a depth that is in
the stack is an index that is in the row, so no index misses there either.

Main results:

- `Stack.Replayable.run`: whatever an action does, all journals can still be replayed.
- `Stack.Replayable.commit` and `Stack.Replayable.rollback`: so they can when a probe is
  closed.
- `Replays.replay?_records`: replaying by indices misses no place and gives the same values.
-/

namespace Peg

variable {V : Type}

/-! ## Places of entries -/

/-- Every entry of a journal finds its place when its turn comes. -/
def Replays : List (Undo V) → List V → Prop
  | [], _ => True
  | undo :: journal, values => undo.Fits values ∧ Replays journal (undo.apply values)

namespace Stack

/-- The journals of all open probes can be replayed, one after another. -/
def Replayable (stack : Stack V) : Prop :=
  Replays stack.journals.flatten stack.values

variable {stack after : Stack V} {newer older : List (Undo V)} {values : List V}

/-- A journal replays if its newer entries do, and the older ones from where those lead. -/
theorem replays_append :
    Replays (newer ++ older) values ↔
      Replays newer values ∧ Replays older (replay newer values) := by
  induction newer generalizing values with
  | nil => simp [Replays, replay]
  | cons undo newer ih =>
      rw [List.cons_append, Replays, Replays, ih, and_assoc]
      rfl

/-- An empty stack has no entries that could miss. -/
theorem replayable_empty : (empty : Stack V).Replayable :=
  trivial

/-! ## Operations -/

/-- A step enters a note that fits, so the journals go on to replay. -/
theorem Step.replayable (hstep : Step stack after) (h : stack.Replayable) :
    after.Replayable := by
  rcases hstep with rfl | ⟨values, undo, rfl, hfits, hundo⟩
  · exact h
  · cases hjournals : stack.journals with
    | nil => simp [Replayable, change, enter, hjournals, Replays]
    | cons journal outer =>
        have hall : Replays (journal :: outer).flatten stack.values := hjournals ▸ h
        rw [Replayable, change, hjournals]
        exact ⟨hfits, hundo.symm ▸ hall⟩

/-- Whatever a program does, all journals can still be replayed. -/
theorem Replayable.run {α : Type} {space : Workspace V} (h : space.stack.Replayable)
    (program : Program V α) : (program.run space).2.stack.Replayable := by
  induction program generalizing space with
  | done result | fail error => exact h
  | perform op next ih => exact ih _ ((step_perform space op).replayable h)

/-! ## Probes -/

/-- An empty journal replays. -/
theorem Replayable.openProbe (h : stack.Replayable) : stack.openProbe.Replayable :=
  h

/-- The journal of a probe that is kept goes to the enclosing one, or is forgotten. -/
theorem Replayable.commit (h : stack.Replayable) : stack.commit.Replayable := by
  rcases stack with ⟨values, _ | ⟨journal, _ | ⟨outer, rest⟩⟩⟩
  · exact trivial
  · exact trivial
  · simpa [Replayable, Stack.commit] using h

/-- When the journal of a probe has been replayed, the others can be. -/
theorem Replayable.rollback (h : stack.Replayable) : stack.rollback.Replayable := by
  rcases stack with ⟨values, _ | ⟨journal, outer⟩⟩
  · exact h
  · exact (replays_append.1 h).2

end Stack

/-! ## Indices from the bottom -/

variable {undo : Undo V} {journal : List (Undo V)} {values : List V}

/-- An entry for a stack of a size, with an index from the bottom for the depth. -/
def Undo.record (size : Nat) : Undo V → Record V
  | .insert down value => .insert (size - down) value
  | .remove down => .remove (size - 1 - down)
  | .replace down value => .set (size - 1 - down) value
  | .reverse count => .reverse (size - count) count

/-- The entries of a journal with indices, each for the stack that it is replayed on. -/
def records : List (Undo V) → List V → List (Record V)
  | [], _ => []
  | undo :: journal, values => undo.record values.length :: records journal (undo.apply values)

/-- A depth in the stack is an index in the row. -/
theorem Undo.Fits.takeBack?_record (h : undo.Fits values) :
    (undo.record values.length).takeBack? values.reverse = some (undo.apply values).reverse := by
  cases undo with
  | insert down value =>
      have hindex : values.length - down ≤ values.reverse.length := by simp
      rw [record, Record.takeBack?, if_pos hindex, apply, reverse_insertIdx h]
  | remove down =>
      have h : down < values.length := h
      have hindex : values.length - 1 - down < values.reverse.length := by
        rw [List.length_reverse]
        omega
      rw [record, Record.takeBack?, if_pos hindex, apply, reverse_eraseIdx h]
  | replace down value =>
      have h : down < values.length := h
      have hindex : values.length - 1 - down < values.reverse.length := by
        rw [List.length_reverse]
        omega
      rw [record, Record.takeBack?, if_pos hindex, apply, reverse_set h]
  | reverse count =>
      have h : count ≤ values.length := h
      have hindex : values.length - count + count = values.reverse.length := by
        rw [List.length_reverse, Nat.sub_add_cancel h]
      -- The entry reverses all that is left from its index on.
      have hback : (values.reverse.drop (values.length - count)).length = count := by
        rw [List.length_drop, List.length_reverse, Nat.sub_sub_self h]
      rw [record, Record.takeBack?, if_pos (Nat.le_of_eq hindex), hindex, List.drop_length,
        List.take_of_length_le (Nat.le_of_eq hback), apply, reverseFirst, List.take_reverse,
        List.drop_reverse, Nat.sub_sub_self h]
      simp

/-- Replaying by indices misses no place, and gives the same values. -/
theorem Replays.replay?_records (h : Replays journal values) :
    Ledger.replay? (records journal values) values.reverse =
      some (Stack.replay journal values).reverse := by
  induction journal generalizing values with
  | nil => rfl
  | cons undo journal ih =>
      rw [records, Ledger.replay?, h.1.takeBack?_record]
      exact ih h.2

end Peg
