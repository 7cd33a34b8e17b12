import Peg.Action.Program

/-!
# Journals of open probes

While a probe is open, its journal can take back every change of the stack since
the probe was opened.  A stack tracks an earlier one if the same probes are open,
the outer journals are as they were, and the new entries of the innermost journal
lead back to the earlier values.

Main results:

- `Stack.step_perform`: all that an operation can do to a stack.
- `Stack.tracks_perform` and `Stack.tracks_run`: whatever an action does, the
  stack tracks the one it started from.
- `Stack.Tracks.rollback_eq`: rolling back a probe gives the stack from before
  the probe, journals included.
- `Stack.Tracks.commit`: keeping the changes of a probe leaves a stack that
  tracks the one from before the probe.
-/

namespace Peg

variable {V : Type}

/-- The place that an entry names is in the stack. -/
def Undo.Fits : Undo V → List V → Prop
  | .insert down _, values => down ≤ values.length
  | .remove down, values => down < values.length
  | .replace down _, values => down < values.length
  | .reverse count, values => count ≤ values.length

namespace Stack

/-- The probes open at a stack are still open at a later one, and the journals
know how to get back. -/
def Tracks (before after : Stack V) : Prop :=
  match before.journals with
  | [] => after.journals = []
  | journal :: outer =>
    ∃ entries, after.journals = (entries ++ journal) :: outer ∧
      replay entries after.values = before.values

/-- Replaying two runs of entries, the newer ones first. -/
theorem replay_append (newer older : List (Undo V)) (values : List V) :
    replay (newer ++ older) values = replay older (replay newer values) := by
  simp [replay, List.foldl_append]

/-- A stack tracks itself. -/
theorem Tracks.refl (stack : Stack V) : Tracks stack stack := by
  unfold Tracks
  split
  next hjournals => exact hjournals
  next journal outer hjournals => exact ⟨[], by simpa using hjournals, rfl⟩

/-- Tracking goes on over several stretches of work. -/
theorem Tracks.trans {a b c : Stack V} (hab : Tracks a b) (hbc : Tracks b c) : Tracks a c := by
  unfold Tracks at hab ⊢
  split
  next hjournals =>
      rw [hjournals] at hab
      simpa [Tracks, hab] using hbc
  next journal outer hjournals =>
      rw [hjournals] at hab
      rcases hab with ⟨first, hb, hfirst⟩
      rw [Tracks, hb] at hbc
      rcases hbc with ⟨second, hc, hsecond⟩
      refine ⟨second ++ first, by simpa using hc, ?_⟩
      rw [replay_append, hsecond, hfirst]

/-- The same number of probes is open. -/
theorem Tracks.probes_eq {before after : Stack V} (h : Tracks before after) :
    after.probes = before.probes := by
  unfold Tracks at h
  split at h
  next hnone => rw [probes, probes, h, hnone]
  next journal outer hjournals =>
      rcases h with ⟨entries, hafter, -⟩
      rw [probes, probes, hafter, hjournals, List.length_cons, List.length_cons]

/-- A change is tracked if its entry takes it back. -/
theorem tracks_change {stack : Stack V} {values : List V} {undo : Undo V}
    (hundo : undo.apply values = stack.values) : Tracks stack (stack.change values undo) := by
  unfold Tracks
  split
  next hjournals => simp [change, enter, hjournals]
  next journal outer hjournals =>
      exact ⟨[undo], by simp [change, enter, hjournals], by simpa [change, replay] using hundo⟩

/-! ## Closing a probe -/

/-- Work under a probe lengthens the journal that was opened for it. -/
theorem Tracks.journals_openProbe {before after : Stack V} (h : Tracks before.openProbe after) :
    ∃ entries, after.journals = entries :: before.journals ∧
      replay entries after.values = before.values := by
  simpa [Tracks, openProbe] using h

/-- Rolling back a probe undoes all that was done under it. -/
theorem Tracks.rollback_eq {before after : Stack V} (h : Tracks before.openProbe after) :
    after.rollback = before := by
  rcases h.journals_openProbe with ⟨entries, hjournals, hvalues⟩
  simp [rollback, hjournals, hvalues]

/-- Keeping the changes of a probe leaves them to the enclosing probe. -/
theorem Tracks.commit {before after : Stack V} (h : Tracks before.openProbe after) :
    Tracks before after.commit := by
  rcases h.journals_openProbe with ⟨entries, hjournals, hvalues⟩
  unfold Tracks
  split
  next hbefore => simp [Stack.commit, hjournals, hbefore]
  next journal outer hbefore =>
      exact ⟨entries, by simp [Stack.commit, hjournals, hbefore],
        by simpa [Stack.commit, hjournals, hbefore] using hvalues⟩

/-- Opening a probe and keeping its changes, if there are none, changes nothing. -/
@[simp] theorem commit_openProbe (stack : Stack V) : stack.openProbe.commit = stack := by
  rcases stack with ⟨values, _ | ⟨journal, outer⟩⟩ <;> simp [openProbe, commit]

/-- Keeping the changes of a probe leaves the values as they are. -/
@[simp] theorem values_commit (stack : Stack V) : stack.commit.values = stack.values := by
  unfold commit
  split <;> rfl

/-! ## Operations -/

variable {stack after : Stack V} {values : List V}

/-- All that an operation can do to a stack: leave it, or change it and note what takes the
change back, at a place that is there. -/
def Step (before after : Stack V) : Prop :=
  after = before ∨ ∃ values undo, after = before.change values undo ∧ undo.Fits values ∧
    undo.apply values = before.values

/-- A change is a step if its note fits and takes it back. -/
theorem Step.of_change {undo : Undo V} (hfits : undo.Fits values)
    (hundo : undo.apply values = stack.values) : Step stack (stack.change values undo) :=
  .inr ⟨values, undo, rfl, hfits, hundo⟩

/-- What an operation does can be taken back. -/
theorem Step.tracks (h : Step stack after) : Tracks stack after := by
  rcases h with rfl | ⟨values, undo, rfl, -, hundo⟩
  · exact .refl _
  · exact tracks_change hundo

theorem step_push (stack : Stack V) (value : V) : Step stack (stack.push value) :=
  .of_change (Nat.succ_pos _) rfl

/-- A value put in at a depth is taken away there. -/
theorem step_pushAt {down : Nat} {value : V} (h : stack.pushAt down value = .ok after) :
    Step stack after := by
  unfold pushAt at h
  split at h
  next hdown =>
      cases h
      apply Step.of_change _ (undo_pushAt down stack.values value)
      rw [Undo.Fits, List.length_insertIdx_of_le_length hdown]
      exact Nat.lt_succ_of_le hdown
  next => cases h

/-- A value taken out at a depth is put back there. -/
theorem step_popAt {down : Nat} {value : V} (h : stack.popAt down = .ok (value, after)) :
    Step stack after := by
  unfold popAt at h
  split at h
  next hvalue =>
      cases h
      apply Step.of_change _ (undo_popAt hvalue)
      have hdown := (List.getElem?_eq_some_iff.1 hvalue).1
      rw [Undo.Fits, List.length_eraseIdx_of_lt hdown]
      exact Nat.le_sub_one_of_lt hdown
  next => cases h

/-- A value replaced at a depth is put back in its place. -/
theorem step_pokeAt {down : Nat} {value previous : V}
    (h : stack.pokeAt down value = .ok (previous, after)) : Step stack after := by
  unfold pokeAt at h
  split at h
  next hvalue =>
      cases h
      apply Step.of_change _ (undo_pokeAt hvalue value)
      rw [Undo.Fits, List.length_set]
      exact (List.getElem?_eq_some_iff.1 hvalue).1
  next => cases h

/-- A copy is a value put on top. -/
theorem step_dup (h : stack.dup = .ok after) : Step stack after := by
  unfold dup at h
  split at h
  next =>
      cases h
      exact step_push stack _
  next => cases h

theorem length_reverseFirst (count : Nat) (values : List V) :
    (reverseFirst count values).length = values.length := by
  rw [reverseFirst, List.length_append, List.length_reverse, ← List.length_append,
    List.take_append_drop]

/-- Topmost values in reverse order are reversed once more. -/
theorem step_reverseTop {count : Nat} (h : stack.reverseTop count = .ok after) :
    Step stack after := by
  unfold reverseTop at h
  split at h
  next hcount =>
      cases h
      apply Step.of_change _ (undo_reverse count stack.values)
      rw [Undo.Fits, length_reverseFirst]
      exact hcount
  next => cases h

/-- An operation that answers something, or fails and changes nothing. -/
theorem step_update {α : Type} {space : Workspace V}
    {outcome : Except ActionError (α × Stack V)}
    (h : ∀ answer after, outcome = .ok (answer, after) → Step space.stack after) :
    Step space.stack (space.update outcome).2.stack := by
  cases outcome with
  | ok result => exact h result.1 result.2 rfl
  | error error => exact .inl rfl

/-- The same for an operation that answers nothing. -/
theorem step_update_unit {space : Workspace V} {outcome : Except ActionError (Stack V)}
    (h : ∀ after, outcome = .ok after → Step space.stack after) :
    Step space.stack (space.update (outcome.map ((), ·))).2.stack := by
  cases outcome with
  | ok after => exact h after rfl
  | error error => exact .inl rfl

/-- An operation leaves the stack, or notes what takes back its change of it. -/
theorem step_perform (space : Workspace V) (op : Op V) :
    Step space.stack (space.perform op).2.stack := by
  cases op with
  | push value => exact step_push space.stack value
  | pushAt down value => exact step_update_unit fun after h => step_pushAt h
  | popAt down => exact step_update fun answer after h => step_popAt h
  | pokeAt down value => exact step_update fun answer after h => step_pokeAt h
  | dup => exact step_update_unit fun after h => step_dup h
  | reverseTop count => exact step_update_unit fun after h => step_reverseTop h
  | peekAt down | values | get index kind | set index kind content | take index kind =>
      exact .inl rfl

/-- Every operation keeps track. -/
theorem tracks_perform (space : Workspace V) (op : Op V) :
    Tracks space.stack (space.perform op).2.stack :=
  (step_perform space op).tracks

/-- Every program keeps track. -/
theorem tracks_run {α : Type} (program : Program V α) (space : Workspace V) :
    Tracks space.stack (program.run space).2.stack := by
  induction program generalizing space with
  | done result => exact Tracks.refl space.stack
  | fail error => exact Tracks.refl space.stack
  | perform op next ih =>
      exact (tracks_perform space op).trans (ih (space.perform op).1 (space.perform op).2)

end Stack

end Peg
