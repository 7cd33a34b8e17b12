import Peg.Proofs.Action.Journal
import Peg.Proofs.Action.Ledger

/-!
# Probes in probes

A course is a program of stack operations in which every probe that is opened is closed, by
keeping its changes or by taking them back, with further probes in between.  Whatever a
course does, a probe around it that is taken back leaves the stack as it was, and one that is
kept leaves what the course alone would have left.

The same is so of a ledger, which has one journal for all open probes and places that count
from the bottom: a course has the same answers and the same values on both, and no entry of
the journal ever names a place that is not there.

Main results:

- `Stack.tracks_run_course` and `Stack.commit_run`: a course can be taken back, and keeping
  a probe around it is not to open one.
- `Course.exists_runOn?`: on a ledger a course goes the same way, and never misses a place.
- `Stack.course_in_probe`: a course with a probe around it, on both.
-/

namespace Peg

variable {V : Type}

/-! ## Courses -/

/-- A program of operations on a stack, in which every probe that is opened is closed. -/
inductive Course (V : Type) where
  | done
  /-- Perform an operation, whether it succeeds or not, and go on. -/
  | edit (op : Stack.Edit V) (rest : Course V)
  /-- Open a probe, do what is to be done in it, close it, and go on. -/
  | probe (keeps : Bool) (inner rest : Course V)

namespace Stack

/-- Perform an operation that changes a stack, or fails. -/
def attempt (stack : Stack V) : Edit V → Except ActionError (Option V × Stack V)
  | .push value => .ok (none, stack.push value)
  | .pushAll values => .ok (none, stack.pushAll values)
  | .pushAt down value => (stack.pushAt down value).map (none, ·)
  | .pop => stack.pop.map (Prod.map some id)
  | .popAt down => (stack.popAt down).map (Prod.map some id)
  | .poke value => (stack.poke value).map (Prod.map some id)
  | .pokeAt down value => (stack.pokeAt down value).map (Prod.map some id)
  | .dup => stack.dup.map (none, ·)
  | .discard => stack.discard.map (none, ·)
  | .swap => stack.swap.map (none, ·)
  | .swap3 => stack.swap3.map (none, ·)
  | .reverseTop count => (stack.reverseTop count).map (none, ·)

/-- Perform an operation; the stack is the same if it fails. -/
def edit (stack : Stack V) (op : Edit V) : Answer V × Stack V :=
  match stack.attempt op with
  | .ok (answer, after) => (.ok answer, after)
  | .error error => (.error error, stack)

/-- Close the innermost probe. -/
def closeProbe (keeps : Bool) (stack : Stack V) : Stack V :=
  if keeps then stack.commit else stack.rollback

end Stack

namespace Course

/-- The stack after a course. -/
def run : Course V → Stack V → Stack V
  | done, stack => stack
  | edit op rest, stack => rest.run (stack.edit op).2
  | probe keeps inner rest, stack => rest.run ((inner.run stack.openProbe).closeProbe keeps)

/-- The ledger after a course, if no entry of its journal names a place that is not there. -/
def runOn? : Course V → Ledger V → Option (Ledger V)
  | done, ledger => some ledger
  | edit op rest, ledger => rest.runOn? (ledger.edit op).2
  | probe keeps inner rest, ledger => do
    let inside ← inner.runOn? ledger.beginProbe
    let after ←
      if keeps then some (inside.commitProbe ledger.journal.length)
      else inside.endProbe? ledger.journal.length
    rest.runOn? after

end Course

/-! ## Courses on a stack -/

namespace Stack

variable {stack after : Stack V}

/-- An operation that fails changes nothing. -/
theorem edit_of_error {op : Edit V} {error : ActionError}
    (h : (stack.edit op).1 = .error error) : (stack.edit op).2 = stack := by
  unfold Stack.edit at h ⊢
  split at h
  next => cases h
  next => rfl

/-- Values put on top one after another can be taken off again. -/
theorem tracks_pushAll (stack : Stack V) (values : List V) :
    Tracks stack (stack.pushAll values) := by
  induction values generalizing stack with
  | nil => exact .refl stack
  | cons value values ih => exact (step_push stack value).tracks.trans (ih _)

/-- An operation keeps track if the stack that it leaves when it succeeds does. -/
theorem tracks_of_attempt {op : Edit V}
    (h : ∀ answer after, stack.attempt op = .ok (answer, after) → Tracks stack after) :
    Tracks stack (stack.edit op).2 := by
  unfold Stack.edit
  split
  next answer after heq => exact h answer after heq
  next => exact .refl stack

/-- An operation that gives a value, or fails and changes nothing. -/
theorem tracks_edit_value {op : Edit V} {outcome : Except ActionError (V × Stack V)}
    (hattempt : stack.attempt op = outcome.map (Prod.map some id))
    (h : ∀ value after, outcome = .ok (value, after) → Tracks stack after) :
    Tracks stack (stack.edit op).2 := by
  apply tracks_of_attempt
  intro answer after hok
  rw [hattempt] at hok
  rcases outcome with error | ⟨value, next⟩
  · cases hok
  · cases hok
    exact h _ _ rfl

/-- An operation that gives no value, or fails and changes nothing. -/
theorem tracks_edit_unit {op : Edit V} {outcome : Except ActionError (Stack V)}
    (hattempt : stack.attempt op = outcome.map (none, ·))
    (h : ∀ after, outcome = .ok after → Tracks stack after) :
    Tracks stack (stack.edit op).2 := by
  apply tracks_of_attempt
  intro answer after hok
  rw [hattempt] at hok
  cases outcome with
  | error error => cases hok
  | ok next =>
      cases hok
      exact h _ rfl

/-- A value that was taken off and forgotten can be put back. -/
theorem tracks_discard (h : stack.discard = .ok after) : Tracks stack after := by
  unfold discard at h
  cases hpop : stack.pop with
  | error error => simp [hpop, Except.map] at h
  | ok result =>
      simp only [hpop, Except.map, Except.ok.injEq] at h
      subst h
      exact (step_popAt hpop).tracks

/-- A probe stays open. -/
theorem Tracks.journals_ne_nil (h : Tracks stack after) (hopen : stack.journals ≠ []) :
    after.journals ≠ [] := by
  have hprobes := h.probes_eq
  unfold probes at hprobes
  rw [← List.length_pos_iff] at hopen ⊢
  omega

/-- Whatever an operation does, the journals can take it back. -/
theorem tracks_edit (stack : Stack V) (op : Edit V) : Tracks stack (stack.edit op).2 := by
  cases op with
  | push value => exact (step_push stack value).tracks
  | pushAll values => exact tracks_pushAll stack values
  | pushAt down value => exact tracks_edit_unit rfl fun after h => (step_pushAt h).tracks
  | pop => exact tracks_edit_value rfl fun value after h => (step_popAt h).tracks
  | popAt down => exact tracks_edit_value rfl fun value after h => (step_popAt h).tracks
  | poke value => exact tracks_edit_value rfl fun previous after h => (step_pokeAt h).tracks
  | pokeAt down value => exact tracks_edit_value rfl fun previous after h => (step_pokeAt h).tracks
  | dup => exact tracks_edit_unit rfl fun after h => (step_dup h).tracks
  | discard => exact tracks_edit_unit rfl fun after h => tracks_discard h
  | swap => exact tracks_edit_unit rfl fun after h => (step_reverseTop h).tracks
  | swap3 => exact tracks_edit_unit rfl fun after h => (step_reverseTop h).tracks
  | reverseTop count => exact tracks_edit_unit rfl fun after h => (step_reverseTop h).tracks

/-- Work under a probe is tracked when the probe is closed, in either way. -/
theorem Tracks.closeProbe (h : Tracks stack.openProbe after) (keeps : Bool) :
    Tracks stack (after.closeProbe keeps) := by
  cases keeps with
  | true => exact h.commit
  | false =>
      have hrollback : after.closeProbe false = stack := h.rollback_eq
      rw [hrollback]
      exact .refl stack

/-- Whatever a course does, the journals can take it back. -/
theorem tracks_run_course (course : Course V) (stack : Stack V) :
    Tracks stack (course.run stack) := by
  induction course generalizing stack with
  | done => exact .refl stack
  | edit op rest ih => exact (tracks_edit stack op).trans (ih _)
  | probe keeps inner rest ihinner ihrest =>
      exact ((ihinner stack.openProbe).closeProbe keeps).trans (ihrest _)

/-- A change under a probe that is kept is a change without it. -/
theorem commit_change (h : stack.journals ≠ []) (values : List V) (undo : Undo V) :
    (stack.change values undo).commit = stack.commit.change values undo := by
  rcases stack with ⟨old, _ | ⟨journal, _ | ⟨outer, rest⟩⟩⟩
  · exact absurd rfl h
  · rfl
  · rfl

/-- A value put on top under a probe that is kept. -/
theorem commit_push (h : stack.journals ≠ []) (value : V) :
    (stack.push value).commit = stack.commit.push value := by
  rw [push, commit_change h, push, values_commit]

/-- Values put on top one after another under a probe that is kept. -/
theorem commit_pushAll (h : stack.journals ≠ []) (values : List V) :
    (stack.pushAll values).commit = stack.commit.pushAll values := by
  induction values generalizing stack with
  | nil => rfl
  | cons value values ih =>
      have hpush : (stack.push value).journals ≠ [] :=
        (step_push stack value).tracks.journals_ne_nil h
      exact (ih hpush).trans (congrArg (pushAll · values) (commit_push h value))

/-- A value put in at a depth under a probe that is kept. -/
theorem pushAt_commit (h : stack.journals ≠ []) (down : Nat) (value : V) :
    stack.commit.pushAt down value = (stack.pushAt down value).map commit := by
  simp only [pushAt, size, values_commit]
  by_cases hdown : down ≤ stack.values.length
  · simp [hdown, Except.map, commit_change h]
  · simp [hdown, Except.map]

/-- A value taken out at a depth under a probe that is kept. -/
theorem popAt_commit (h : stack.journals ≠ []) (down : Nat) :
    stack.commit.popAt down = (stack.popAt down).map (Prod.map id commit) := by
  simp only [popAt, size, values_commit]
  cases stack.values[down]? <;> simp [Except.map, commit_change h]

/-- A value replaced at a depth under a probe that is kept. -/
theorem pokeAt_commit (h : stack.journals ≠ []) (down : Nat) (value : V) :
    stack.commit.pokeAt down value = (stack.pokeAt down value).map (Prod.map id commit) := by
  simp only [pokeAt, size, values_commit]
  cases stack.values[down]? <;> simp [Except.map, commit_change h]

/-- A value copied under a probe that is kept. -/
theorem dup_commit (h : stack.journals ≠ []) : stack.commit.dup = stack.dup.map commit := by
  simp only [dup, values_commit]
  cases stack.values <;> simp [Except.map, commit_push h]

/-- Topmost values reversed under a probe that is kept. -/
theorem reverseTop_commit (h : stack.journals ≠ []) (count : Nat) :
    stack.commit.reverseTop count = (stack.reverseTop count).map commit := by
  simp only [reverseTop, size, values_commit]
  by_cases hcount : count ≤ stack.values.length
  · simp [hcount, Except.map, commit_change h]
  · simp [hcount, Except.map]

/-- A value forgotten under a probe that is kept. -/
theorem discard_commit (h : stack.journals ≠ []) :
    stack.commit.discard = stack.discard.map commit := by
  unfold discard pop
  rw [popAt_commit h]
  cases stack.popAt 0 <;> rfl

/-- The answer of an operation that gives none but leaves a stack. -/
theorem map_commit_unit (outcome : Except ActionError (Stack V)) :
    ((outcome.map commit).map fun after => (none, after)) =
      (outcome.map fun after => ((none : Option V), after)).map (Prod.map id commit) := by
  cases outcome <;> rfl

/-- The answer of an operation that gives a value and leaves a stack. -/
theorem map_commit_value (outcome : Except ActionError (V × Stack V)) :
    (outcome.map (Prod.map id commit)).map (Prod.map some id) =
      (outcome.map (Prod.map some id)).map (Prod.map id commit) := by
  cases outcome <;> rfl

/-- An operation does the same under a probe that is kept and without it. -/
theorem attempt_commit (h : stack.journals ≠ []) (op : Edit V) :
    stack.commit.attempt op = (stack.attempt op).map (Prod.map id commit) := by
  cases op with
  | push value => simp [attempt, Except.map, commit_push h]
  | pushAll values => simp [attempt, Except.map, commit_pushAll h]
  | pushAt down value => simp only [attempt, pushAt_commit h, map_commit_unit]
  | pop => simp only [attempt, pop, popAt_commit h, map_commit_value]
  | popAt down => simp only [attempt, popAt_commit h, map_commit_value]
  | poke value => simp only [attempt, poke, pokeAt_commit h, map_commit_value]
  | pokeAt down value => simp only [attempt, pokeAt_commit h, map_commit_value]
  | dup => simp only [attempt, dup_commit h, map_commit_unit]
  | discard => simp only [attempt, discard_commit h, map_commit_unit]
  | swap => simp only [attempt, swap, reverseTop_commit h, map_commit_unit]
  | swap3 => simp only [attempt, swap3, reverseTop_commit h, map_commit_unit]
  | reverseTop count => simp only [attempt, reverseTop_commit h, map_commit_unit]

/-- An operation, successful or not, answers the same under a probe that is kept. -/
theorem edit_commit (h : stack.journals ≠ []) (op : Edit V) :
    stack.commit.edit op = ((stack.edit op).1, (stack.edit op).2.commit) := by
  unfold Stack.edit
  rw [attempt_commit h]
  rcases stack.attempt op with error | ⟨answer, after⟩ <;> rfl

/-- Keeping a probe in which a course was run is to run the course without the probe. -/
theorem commit_run (course : Course V) (h : stack.journals ≠ []) :
    (course.run stack).commit = course.run stack.commit := by
  induction course generalizing stack with
  | done => rfl
  | edit op rest ih =>
      have hnext : (stack.edit op).2.journals ≠ [] := (tracks_edit stack op).journals_ne_nil h
      simp only [Course.run, edit_commit h]
      exact ih hnext
  | probe keeps inner rest ihinner ihrest =>
      simp only [Course.run]
      cases keeps with
      | false =>
          have hstack : (inner.run stack.openProbe).closeProbe false = stack :=
            (tracks_run_course inner stack.openProbe).rollback_eq
          have hcommit : (inner.run stack.commit.openProbe).closeProbe false = stack.commit :=
            (tracks_run_course inner stack.commit.openProbe).rollback_eq
          rw [hstack, hcommit]
          exact ihrest h
      | true =>
          have hinner : (inner.run stack).journals ≠ [] :=
            (tracks_run_course inner stack).journals_ne_nil h
          have hstack : (inner.run stack.openProbe).closeProbe true = inner.run stack :=
            (ihinner (List.cons_ne_nil _ _)).trans (congrArg inner.run (commit_openProbe stack))
          have hcommit : (inner.run stack.commit.openProbe).closeProbe true =
              inner.run stack.commit :=
            (ihinner (List.cons_ne_nil _ _)).trans
              (congrArg inner.run (commit_openProbe stack.commit))
          rw [hstack, hcommit, ihrest hinner, ihinner h]

end Stack

/-! ## Courses on a ledger -/

section Rows

variable {values : List V} {down : Nat}

/-- A depth in a row is an index in the row read backwards. -/
theorem reverse_insertIdx (h : down ≤ values.length) (value : V) :
    (values.insertIdx down value).reverse =
      values.reverse.insertIdx (values.length - down) value := by
  have hlength := List.length_insertIdx_of_le_length h value
  have hindex : values.length - down ≤ values.reverse.length := by simp
  have hlength' := List.length_insertIdx_of_le_length hindex value
  apply List.ext_getElem
  · rw [List.length_reverse, hlength, hlength', List.length_reverse]
  · intro i hi hi'
    simp only [List.getElem_reverse, List.getElem_insertIdx, hlength]
    rw [hlength', List.length_reverse] at hi'
    split
    next hlt =>
        rw [dif_neg (by omega), dif_neg (by omega)]
        congr 1
        omega
    next hge =>
        split
        next heq => rw [dif_neg (by omega), dif_pos (by omega)]
        next hne =>
            rw [dif_pos (by omega)]
            congr 1
            omega

theorem reverse_eraseIdx (h : down < values.length) :
    (values.eraseIdx down).reverse = values.reverse.eraseIdx (values.length - 1 - down) := by
  have hbehind : values.length - (values.length - 1 - down) = down + 1 := by omega
  have hfront : values.length - (values.length - 1 - down + 1) = down := by omega
  rw [List.eraseIdx_eq_take_drop_succ, List.eraseIdx_eq_take_drop_succ, List.reverse_append,
    List.take_reverse, List.drop_reverse, hbehind, hfront]

theorem reverse_set (h : down < values.length) (value : V) :
    (values.set down value).reverse = values.reverse.set (values.length - 1 - down) value := by
  have hindex : values.length - 1 - down < values.reverse.length := by
    rw [List.length_reverse]
    omega
  have hbehind : values.length - (values.length - 1 - down) = down + 1 := by omega
  have hfront : values.length - (values.length - 1 - down + 1) = down := by omega
  rw [List.set_eq_take_append_cons_drop, if_pos h, List.set_eq_take_append_cons_drop,
    if_pos hindex, List.reverse_append, List.reverse_cons, List.append_assoc,
    List.take_reverse, List.drop_reverse, hbehind, hfront]
  rfl

end Rows

namespace Ledger

variable {ledger : Ledger V} {stack : Stack V}

/-- A ledger shows a stack if it has the same values and the same number of probes is open.
While none is open, its journal is empty. -/
structure Shows (ledger : Ledger V) (stack : Stack V) : Prop where
  values_eq : ledger.values = stack.toList
  probes_eq : ledger.probes = stack.probes
  journal_eq_nil : ledger.probes = 0 → ledger.journal = []

theorem Shows.size_eq (h : ledger.Shows stack) : ledger.size = stack.size := by
  rw [size, h.values_eq, Stack.toList, List.length_reverse, Stack.size]

/-- Both change, and both note what takes the change back if a probe is open. -/
theorem Shows.change (h : ledger.Shows stack) {row values : List V} (hrow : row = values.reverse)
    (record : Record V) (undo : Undo V) :
    (ledger.change row record).Shows (stack.change values undo) where
  values_eq := hrow
  probes_eq := by
    have hprobes : (stack.change values undo).probes = stack.probes := by
      unfold Stack.change Stack.probes Stack.enter
      cases stack.journals <;> rfl
    rw [hprobes]
    exact h.probes_eq
  journal_eq_nil := by
    intro hnone
    have hnone : ledger.probes = 0 := hnone
    simp [Ledger.change, hnone, h.journal_eq_nil hnone]

/-- A value put on top is put at the end of the row. -/
theorem Shows.push (h : ledger.Shows stack) (value : V) :
    (ledger.push value).Shows (stack.push value) := by
  apply h.change
  rw [h.values_eq, Stack.toList, List.reverse_cons]

/-- Values put on top are put at the end of the row, in the same order. -/
theorem Shows.pushAll (h : ledger.Shows stack) (values : List V) :
    (values.foldl Ledger.push ledger).Shows (stack.pushAll values) := by
  induction values generalizing ledger stack with
  | nil => exact h
  | cons value values ih => exact ih (h.push value)

/-- An operation on a ledger and the same one on a stack: the answers are the same, and the
ledger shows the stack again. -/
def Agrees (left : Stack.Answer V × Ledger V) (right : Stack.Answer V × Stack V) : Prop :=
  left.1 = right.1 ∧ left.2.Shows right.2

/-- A value put in at a depth is put in at an index that counts from the other end. -/
theorem Shows.pushAt (h : ledger.Shows stack) (down : Nat) (value : V) :
    Agrees (ledger.pushAt down value) (stack.edit (.pushAt down value)) := by
  have hsize := h.size_eq
  simp only [Ledger.pushAt, Stack.edit, Stack.attempt, Stack.pushAt]
  by_cases hdown : down ≤ stack.size
  · rw [if_pos (hsize ▸ hdown), if_pos hdown]
    refine ⟨rfl, h.change ?_ _ _⟩
    rw [reverse_insertIdx hdown, h.values_eq, hsize]
    rfl
  · rw [if_neg (hsize ▸ hdown), if_neg hdown, hsize]
    exact ⟨rfl, h⟩

/-- The value at a depth. -/
theorem Shows.getElem?_eq (h : ledger.Shows stack) {down : Nat} (hdown : down < ledger.size) :
    stack.values[down]? =
      some (ledger.values.get ⟨ledger.size - 1 - down, by unfold size at hdown ⊢; omega⟩) := by
  have hvalues := h.values_eq
  unfold Stack.toList at hvalues
  unfold size at hdown ⊢
  simp only [hvalues, List.length_reverse, List.get_eq_getElem, List.getElem_reverse] at hdown ⊢
  rw [List.getElem?_eq_getElem hdown]
  congr 2
  omega

/-- A value taken out at a depth is taken out of the row. -/
theorem Shows.popAt (h : ledger.Shows stack) (down : Nat) :
    Agrees (ledger.popAt down) (stack.edit (.popAt down)) := by
  have hsize := h.size_eq
  simp only [Ledger.popAt, Stack.edit, Stack.attempt, Stack.popAt]
  by_cases hdown : down < ledger.size
  · rw [dif_pos hdown, h.getElem?_eq hdown]
    refine ⟨rfl, h.change ?_ _ _⟩
    have hstack : down < stack.values.length := by
      unfold Stack.size at hsize
      omega
    rw [reverse_eraseIdx hstack, h.values_eq, hsize]
    rfl
  · rw [dif_neg hdown, List.getElem?_eq_none (by unfold Stack.size at hsize; omega), hsize]
    exact ⟨rfl, h⟩

/-- A value replaced at a depth is replaced in the row. -/
theorem Shows.pokeAt (h : ledger.Shows stack) (down : Nat) (value : V) :
    Agrees (ledger.pokeAt down value) (stack.edit (.pokeAt down value)) := by
  have hsize := h.size_eq
  simp only [Ledger.pokeAt, Stack.edit, Stack.attempt, Stack.pokeAt]
  by_cases hdown : down < ledger.size
  · rw [dif_pos hdown, h.getElem?_eq hdown]
    refine ⟨rfl, h.change ?_ _ _⟩
    have hstack : down < stack.values.length := by
      unfold Stack.size at hsize
      omega
    rw [reverse_set hstack, h.values_eq, hsize]
    rfl
  · rw [dif_neg hdown, List.getElem?_eq_none (by unfold Stack.size at hsize; omega), hsize]
    exact ⟨rfl, h⟩

/-- The value on top is the last one of the row. -/
theorem Shows.getLast?_eq (h : ledger.Shows stack) :
    ledger.values.getLast? = stack.values.head? := by
  rw [h.values_eq, Stack.toList, List.getLast?_reverse]

/-- The topmost value is the last one of the row. -/
theorem Shows.pop (h : ledger.Shows stack) : Agrees ledger.pop (stack.edit .pop) := by
  have hrow := h.values_eq
  unfold Ledger.pop
  rw [h.getLast?_eq]
  simp only [Stack.edit, Stack.attempt, Stack.pop, Stack.popAt, Stack.size]
  cases hvalues : stack.values with
  | nil => exact ⟨rfl, h⟩
  | cons value values =>
      refine ⟨rfl, h.change ?_ _ _⟩
      simp [hrow, Stack.toList, hvalues]

/-- The topmost value is forgotten in both. -/
theorem Shows.discard (h : ledger.Shows stack) :
    Agrees (ledger.edit .discard) (stack.edit .discard) := by
  have hpop := h.pop
  simp only [Agrees, Ledger.edit, Stack.edit, Stack.attempt, Stack.discard] at hpop ⊢
  cases houtcome : stack.pop with
  | error error =>
      rw [houtcome] at hpop
      exact ⟨by rw [hpop.1]; rfl, hpop.2⟩
  | ok result =>
      rw [houtcome] at hpop
      exact ⟨by rw [hpop.1]; rfl, hpop.2⟩

/-- The topmost value is copied in both. -/
theorem Shows.dup (h : ledger.Shows stack) : Agrees ledger.dup (stack.edit .dup) := by
  unfold Ledger.dup
  rw [h.getLast?_eq]
  simp only [Stack.edit, Stack.attempt, Stack.dup]
  cases stack.values with
  | nil => exact ⟨rfl, h⟩
  | cons value values => exact ⟨rfl, h.push value⟩

/-- The topmost values are the last ones of the row. -/
theorem Shows.reverseTop (h : ledger.Shows stack) (count : Nat) :
    Agrees (ledger.reverseTop count) (stack.edit (.reverseTop count)) := by
  have hsize := h.size_eq
  simp only [Ledger.reverseTop, Stack.edit, Stack.attempt, Stack.reverseTop]
  by_cases hcount : count ≤ stack.size
  · rw [if_pos (hsize ▸ hcount), if_pos hcount]
    refine ⟨rfl, h.change ?_ _ _⟩
    unfold Stack.size at hcount hsize
    rw [h.values_eq, Stack.toList, hsize, reverseFirst, List.take_reverse, List.drop_reverse,
      Nat.sub_sub_self hcount]
    simp
  · rw [if_neg (hsize ▸ hcount), if_neg hcount, hsize]
    exact ⟨rfl, h⟩

/-- An operation answers the same on both, and the ledger shows the stack again. -/
theorem Shows.edit (h : ledger.Shows stack) (op : Stack.Edit V) :
    Agrees (ledger.edit op) (stack.edit op) := by
  cases op with
  | push value => exact ⟨rfl, h.push value⟩
  | pushAll values => exact ⟨rfl, h.pushAll values⟩
  | pushAt down value => exact h.pushAt down value
  | pop => exact h.pop
  | popAt down => exact h.popAt down
  | poke value => exact h.pokeAt 0 value
  | pokeAt down value => exact h.pokeAt down value
  | dup => exact h.dup
  | discard => exact h.discard
  | swap => exact h.reverseTop 2
  | swap3 => exact h.reverseTop 3
  | reverseTop count => exact h.reverseTop count

/-- A probe is opened on both. -/
theorem Shows.beginProbe (h : ledger.Shows stack) : ledger.beginProbe.Shows stack.openProbe where
  values_eq := h.values_eq
  probes_eq := by
    rw [Stack.probes_openProbe, ← h.probes_eq]
    rfl
  journal_eq_nil := nofun

/-- The work under a probe is kept on both. -/
theorem Shows.commitProbe (h : ledger.Shows stack) {inside : Ledger V} {within : Stack V}
    (hinside : inside.Shows within) (htracks : ledger.beginProbe.Tracks inside)
    (hwithin : stack.openProbe.Tracks within) :
    (inside.commitProbe ledger.journal.length).Shows within.commit where
  values_eq := hinside.values_eq.trans (congrArg List.reverse (Stack.values_commit within).symm)
  probes_eq := by
    rw [hwithin.commit.probes_eq, ← h.probes_eq]
    exact htracks.commitProbe.probes_eq
  journal_eq_nil := by
    intro hnone
    rcases htracks.commitProbe with ⟨hprobes, entries, hjournal, hentries⟩
    have hnone : ledger.probes = 0 := hprobes.symm.trans hnone
    rw [hnone, if_neg (Nat.lt_irrefl 0)] at hentries
    rw [hjournal, hentries, h.journal_eq_nil hnone]
    rfl

end Ledger

/-- On a ledger a course goes the same way as on a stack, no entry of the journal ever names a
place that is not there, and the journal can take back what the course does. -/
theorem Course.exists_runOn? (course : Course V) {ledger : Ledger V} {stack : Stack V}
    (h : ledger.Shows stack) :
    ∃ after, course.runOn? ledger = some after ∧ ledger.Tracks after ∧
      after.Shows (course.run stack) := by
  induction course generalizing ledger stack with
  | done => exact ⟨ledger, rfl, .refl ledger, h⟩
  | edit op rest ih =>
      rcases ih (h.edit op).2 with ⟨after, hrun, htracks, hshows⟩
      exact ⟨after, hrun, (Ledger.tracks_edit ledger op).trans htracks, hshows⟩
  | probe keeps inner rest ihinner ihrest =>
      rcases ihinner h.beginProbe with ⟨inside, hinside, htracks, hshows⟩
      have hwithin := Stack.tracks_run_course inner stack.openProbe
      cases keeps with
      | false =>
          have hstack : (inner.run stack.openProbe).closeProbe false = stack := hwithin.rollback_eq
          rcases ihrest h with ⟨after, hrun, hrest, hafter⟩
          refine ⟨after, ?_, hrest, ?_⟩
          · simp [runOn?, hinside, htracks.endProbe?_eq, hrun]
          · rw [run, hstack]
            exact hafter
      | true =>
          rcases ihrest (h.commitProbe hshows htracks hwithin) with ⟨after, hrun, hrest, hafter⟩
          refine ⟨after, ?_, htracks.commitProbe.trans hrest, hafter⟩
          simp [runOn?, hinside, hrun]

/-! ## Courses under a probe -/

/-- A course under a probe.  Taken back, it leaves the stack as it was, journals and open
probes included; kept, it leaves what it leaves without the probe, and an enclosing probe can
still take it back.  No journal is left when no probe is open, and an operation that fails
changes nothing.

On a ledger, where places count from the bottom and all open probes share one journal, all of
this is so as well, with the same answers and the same values as on the stack; and no entry of
the journal names a place that is not there. -/
theorem Stack.course_in_probe (stack : Stack V) (course : Course V) :
    (course.run stack.openProbe).rollback = stack ∧
      (course.run stack.openProbe).commit = course.run stack ∧
      (∀ before after : Course V,
        (after.run (course.run (before.run stack.openProbe).openProbe).commit).rollback =
          stack) ∧
      ((course.run stack).probes = 0 → (course.run stack).journals = []) ∧
      (∀ op error, (stack.edit op).1 = .error error → (stack.edit op).2 = stack) ∧
      ∀ ledger : Ledger V, ledger.Shows stack →
        (∃ inside after, course.runOn? ledger.beginProbe = some inside ∧
          course.runOn? ledger = some after ∧
          inside.endProbe? ledger.journal.length = some ledger ∧
          (inside.commitProbe ledger.journal.length).values = after.values ∧
          (inside.commitProbe ledger.journal.length).Shows (course.run stack) ∧
          after.Shows (course.run stack)) ∧
        ∀ op, (ledger.edit op).1 = (stack.edit op).1 ∧
          ∀ error, (ledger.edit op).1 = .error error → (ledger.edit op).2 = ledger := by
  have hcourse := tracks_run_course course stack.openProbe
  have hkept : (course.run stack.openProbe).commit = course.run stack :=
    (commit_run course (List.cons_ne_nil _ _)).trans (congrArg course.run (commit_openProbe stack))
  refine ⟨hcourse.rollback_eq, hkept, ?_, List.length_eq_zero_iff.1, fun op error => edit_of_error,
    ?_⟩
  · intro before after
    have hbefore := tracks_run_course before stack.openProbe
    have hwithin := (tracks_run_course course (before.run stack.openProbe).openProbe).commit
    exact ((hbefore.trans hwithin).trans (tracks_run_course after _)).rollback_eq
  · intro ledger hshows
    rcases course.exists_runOn? hshows.beginProbe with ⟨inside, hinside, htracks, hin⟩
    rcases course.exists_runOn? hshows with ⟨after, hafter, -, hplain⟩
    have hcommit : (inside.commitProbe ledger.journal.length).Shows (course.run stack) :=
      hkept ▸ hshows.commitProbe hin htracks hcourse
    refine ⟨⟨inside, after, hinside, hafter, htracks.endProbe?_eq, ?_, hcommit, hplain⟩,
      fun op => ⟨(hshows.edit op).1, fun error => Ledger.edit_of_error⟩⟩
    exact hcommit.values_eq.trans hplain.values_eq.symm

/-- Two probes in each other, with an operation of every kind, one of which fails. -/
def nestedCourse : Course Nat :=
  .edit .pop <| .edit (.push 10) <| .edit .swap3 <| .edit (.pokeAt 1 20) <|
  .probe true
    (.edit (.popAt 2) <| .edit .dup <| .edit (.pushAt 2 7) <| .edit (.popAt 9) <|
      .probe false (.edit (.pushAll [5, 6]) <| .edit .swap .done) .done) <|
  .edit .discard <| .edit (.reverseTop 2) .done

/-- The journal of the outer probe takes back all nine changes, and without the probe the values
are the same. -/
theorem Stack.course_in_probe_nested :
    (⟨[1, 2, 3], [], 0⟩ : Ledger Nat).Shows (.ofList [1, 2, 3]) ∧
      ∃ inside, nestedCourse.runOn? (⟨[1, 2, 3], [], 0⟩ : Ledger Nat).beginProbe = some inside ∧
        inside.journal.length = 9 ∧
        inside.endProbe? 0 = some ⟨[1, 2, 3], [], 0⟩ ∧
        (inside.commitProbe 0).values = (nestedCourse.run (.ofList [1, 2, 3])).toList ∧
        (nestedCourse.run (.ofList [1, 2, 3])).toList = [20, 1, 7] := by
  have hshows : (⟨[1, 2, 3], [], 0⟩ : Ledger Nat).Shows (.ofList [1, 2, 3]) :=
    ⟨rfl, rfl, fun _ => rfl⟩
  rcases course_in_probe (.ofList [1, 2, 3]) nestedCourse with ⟨-, -, -, -, -, hledger⟩
  rcases (hledger _ hshows).1 with ⟨inside, after, hinside, hafter, hend, -, hcommit, -⟩
  refine ⟨hshows, inside, hinside, ?_, hend, hcommit.values_eq, ?_⟩
  · cases hinside
    rfl
  · rfl

end Peg
