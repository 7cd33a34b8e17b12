import Mathlib.Data.List.InsertIdx
import Peg.Action.Stack

/-!
# A value stack with one journal

A stack of values can be kept as one row of values, the bottom first, with one journal for
all open probes.  What takes a change back then names its place by an index from the bottom,
and closing a probe takes the length that the journal had when the probe was opened.  Such an
index may miss: taking a change back fails if the row does not have the place that it names.

The invariant is that of a stretch of work under a probe: the journal has only been added to,
and the entries that were added lead back to the earlier values, each of them naming a place
that is there when its turn comes.

Main results:

- `Ledger.tracks_edit`: whatever an operation does, the journal can take it back.
- `Ledger.edit_of_error`: an operation that fails changes nothing.
- `Ledger.Tracks.endProbe?_eq`: taking a probe back gives the ledger from before the probe.
- `Ledger.Tracks.commitProbe`: keeping a probe leaves the work to the enclosing probe.
-/

namespace Peg

variable {V : Type}

/-! ## Operations -/

/-- The operations that change a stack of values. -/
inductive Stack.Edit (V : Type) where
  | push (value : V)
  | pushAll (values : List V)
  | pushAt (down : Nat) (value : V)
  | pop
  | popAt (down : Nat)
  | poke (value : V)
  | pokeAt (down : Nat) (value : V)
  | dup
  | discard
  | swap
  | swap3
  | reverseTop (count : Nat)

/-- What an operation answers: the value taken out or replaced, if it does so, or why there
is none. -/
abbrev Stack.Answer (V : Type) : Type :=
  Except ActionError (Option V)

/-! ## Ledgers -/

/-- What takes back one change of a row of values, at an index from the bottom. -/
inductive Record (V : Type) where
  /-- Take the topmost value away. -/
  | pop
  /-- Put a value on top. -/
  | push (value : V)
  /-- Put a value in at an index. -/
  | insert (index : Nat) (value : V)
  /-- Take the value at an index away. -/
  | remove (index : Nat)
  /-- Put another value in the place of the one at an index. -/
  | set (index : Nat) (value : V)
  /-- Reverse a number of values from an index on. -/
  | reverse (start count : Nat)

/-- Take back one change, if its place is there. -/
def Record.takeBack? : Record V → List V → Option (List V)
  | pop, values => if values = [] then none else some values.dropLast
  | push value, values => some (values ++ [value])
  | insert index value, values =>
    if index ≤ values.length then some (values.insertIdx index value) else none
  | remove index, values => if index < values.length then some (values.eraseIdx index) else none
  | set index value, values =>
    if index < values.length then some (values.set index value) else none
  | reverse start count, values =>
    if start + count ≤ values.length then
      some (values.take start ++
        (((values.drop start).take count).reverse ++ values.drop (start + count)))
    else none

/-- A row of values with one journal. -/
structure Ledger (V : Type) where
  /-- The values, topmost last. -/
  values : List V
  /-- What takes back the changes since the outermost open probe, newest first. -/
  journal : List (Record V)
  /-- Number of open probes. -/
  probes : Nat

namespace Ledger

/-- Number of values. -/
def size (ledger : Ledger V) : Nat :=
  ledger.values.length

/-- Change the values; while a probe is open, note what takes the change back. -/
def change (ledger : Ledger V) (values : List V) (record : Record V) : Ledger V where
  values := values
  journal := if 0 < ledger.probes then record :: ledger.journal else ledger.journal
  probes := ledger.probes

/-- Put a value on top. -/
def push (ledger : Ledger V) (value : V) : Ledger V :=
  ledger.change (ledger.values ++ [value]) .pop

/-- Put a value in so that it ends up at a depth. -/
def pushAt (ledger : Ledger V) (down : Nat) (value : V) : Stack.Answer V × Ledger V :=
  if down ≤ ledger.size then
    let index := ledger.size - down
    (.ok none, ledger.change (ledger.values.insertIdx index value) (.remove index))
  else (.error (.underflow .pushAt down ledger.size), ledger)

/-- Take out the topmost value. -/
def pop (ledger : Ledger V) : Stack.Answer V × Ledger V :=
  match ledger.values.getLast? with
  | some value => (.ok (some value), ledger.change ledger.values.dropLast (.push value))
  | none => (.error (.underflow .pop 1 0), ledger)

/-- Take out the value at a depth. -/
def popAt (ledger : Ledger V) (down : Nat) : Stack.Answer V × Ledger V :=
  if h : down < ledger.size then
    let index : Fin ledger.size := ⟨ledger.size - 1 - down, by omega⟩
    let value := ledger.values.get index
    (.ok (some value), ledger.change (ledger.values.eraseIdx index) (.insert index value))
  else (.error (.noValueAt .pop down ledger.size), ledger)

/-- Replace the value at a depth. -/
def pokeAt (ledger : Ledger V) (down : Nat) (value : V) : Stack.Answer V × Ledger V :=
  if h : down < ledger.size then
    let index : Fin ledger.size := ⟨ledger.size - 1 - down, by omega⟩
    let previous := ledger.values.get index
    (.ok (some previous), ledger.change (ledger.values.set index value) (.set index previous))
  else (.error (.noValueAt .poke down ledger.size), ledger)

/-- Put a copy of the topmost value on top. -/
def dup (ledger : Ledger V) : Stack.Answer V × Ledger V :=
  match ledger.values.getLast? with
  | some value => (.ok none, ledger.push value)
  | none => (.error (.underflow .dup 1 0), ledger)

/-- Reverse the order of the topmost values. -/
def reverseTop (ledger : Ledger V) (count : Nat) : Stack.Answer V × Ledger V :=
  if count ≤ ledger.size then
    let start := ledger.size - count
    (.ok none, ledger.change (ledger.values.take start ++ (ledger.values.drop start).reverse)
      (.reverse start count))
  else (.error (.underflow .swap count ledger.size), ledger)

/-- Perform an operation. -/
def edit (ledger : Ledger V) : Stack.Edit V → Stack.Answer V × Ledger V
  | .push value => (.ok none, ledger.push value)
  | .pushAll values => (.ok none, values.foldl push ledger)
  | .pushAt down value => ledger.pushAt down value
  | .pop => ledger.pop
  | .popAt down => ledger.popAt down
  | .poke value => ledger.pokeAt 0 value
  | .pokeAt down value => ledger.pokeAt down value
  | .dup => ledger.dup
  | .discard => (ledger.pop.1.map fun _ => none, ledger.pop.2)
  | .swap => ledger.reverseTop 2
  | .swap3 => ledger.reverseTop 3
  | .reverseTop count => ledger.reverseTop count

/-! ## Probes -/

/-- Open a probe.  What closes it is given the length that the journal has now. -/
def beginProbe (ledger : Ledger V) : Ledger V :=
  { ledger with probes := ledger.probes + 1 }

/-- Cut the journal back to an earlier length. -/
def truncated (mark : Nat) (journal : List (Record V)) : List (Record V) :=
  journal.drop (journal.length - mark)

/-- Close a probe, keeping the changes since a mark. -/
def commitProbe (mark : Nat) (ledger : Ledger V) : Ledger V where
  values := ledger.values
  journal := if ledger.probes - 1 = 0 then truncated mark ledger.journal else ledger.journal
  probes := ledger.probes - 1

/-- Take back the changes of a journal, newest first, as long as their places are there. -/
def replay? : List (Record V) → List V → Option (List V)
  | [], values => some values
  | record :: journal, values => (record.takeBack? values).bind (replay? journal)

/-- Close a probe, taking back the changes since a mark. -/
def endProbe? (mark : Nat) (ledger : Ledger V) : Option (Ledger V) :=
  (replay? (ledger.journal.take (ledger.journal.length - mark)) ledger.values).map fun values =>
    ⟨values, truncated mark ledger.journal, ledger.probes - 1⟩

/-! ## What the journal can take back -/

/-- The same probes are open, and the journal has been added to: by nothing if no probe is
open, and otherwise by what leads back to the earlier values. -/
structure Tracks (before after : Ledger V) : Prop where
  probes_eq : after.probes = before.probes
  journal_eq : ∃ entries, after.journal = entries ++ before.journal ∧
    if 0 < before.probes then replay? entries after.values = some before.values
    else entries = []

variable {ledger after : Ledger V}

/-- Replaying two runs of entries, the newer ones first. -/
theorem replay?_append (newer older : List (Record V)) (values : List V) :
    replay? (newer ++ older) values = (replay? newer values).bind (replay? older) := by
  induction newer generalizing values with
  | nil => rfl
  | cons record newer ih =>
      simp only [List.cons_append, replay?]
      cases record.takeBack? values with
      | none => rfl
      | some earlier => exact ih earlier

/-- Nothing has been entered yet. -/
theorem Tracks.refl (ledger : Ledger V) : Tracks ledger ledger :=
  ⟨rfl, [], rfl, by simp [replay?]⟩

/-- A stretch behind another; the newer entries are taken back first. -/
theorem Tracks.trans {a b c : Ledger V} (hab : Tracks a b) (hbc : Tracks b c) : Tracks a c := by
  rcases hab with ⟨hprobes, first, hb, hfirst⟩
  rcases hbc with ⟨hprobes', second, hc, hsecond⟩
  refine ⟨hprobes'.trans hprobes, second ++ first, by simp [hc, hb], ?_⟩
  rw [hprobes] at hsecond
  split
  next hopen =>
      rw [if_pos hopen] at hfirst hsecond
      rw [replay?_append, hsecond]
      exact hfirst
  next hnone =>
      rw [if_neg hnone] at hfirst hsecond
      rw [hsecond, hfirst]
      rfl

/-- A change is tracked if its entry takes it back. -/
theorem tracks_change {values : List V} {record : Record V}
    (hrecord : record.takeBack? values = some ledger.values) :
    Tracks ledger (ledger.change values record) := by
  by_cases hopen : 0 < ledger.probes
  · exact ⟨rfl, [record], by simp [change, hopen], by simp [change, hopen, replay?, hrecord]⟩
  · exact ⟨rfl, [], by simp [change, hopen], by simp [hopen]⟩

/-- A value put on top is taken off again. -/
theorem tracks_push (ledger : Ledger V) (value : V) : Tracks ledger (ledger.push value) := by
  apply tracks_change
  simp [Record.takeBack?]

/-- Values put on top one after another are taken off in the opposite order. -/
theorem tracks_pushAll (ledger : Ledger V) (values : List V) :
    Tracks ledger (values.foldl push ledger) := by
  induction values generalizing ledger with
  | nil => exact .refl ledger
  | cons value values ih => exact (tracks_push ledger value).trans (ih _)

/-- A value put in is taken out at the same index. -/
theorem tracks_pushAt (ledger : Ledger V) (down : Nat) (value : V) :
    Tracks ledger (ledger.pushAt down value).2 := by
  unfold pushAt
  split
  next hdown =>
      apply tracks_change
      have hindex : ledger.size - down ≤ ledger.values.length := Nat.sub_le _ _
      have hlength := List.length_insertIdx_of_le_length hindex value
      rw [Record.takeBack?, if_pos (by omega), List.eraseIdx_insertIdx_self]
  next => exact .refl ledger

/-- A value taken off is put back at the end. -/
theorem tracks_pop (ledger : Ledger V) : Tracks ledger ledger.pop.2 := by
  unfold pop
  split
  next value hlast =>
      rcases List.getLast?_eq_some_iff.1 hlast with ⟨front, hvalues⟩
      apply tracks_change
      simp [Record.takeBack?, hvalues]
  next => exact .refl ledger

/-- A value taken out is put back at the same index. -/
theorem tracks_popAt (ledger : Ledger V) (down : Nat) :
    Tracks ledger (ledger.popAt down).2 := by
  unfold popAt
  split
  next hdown =>
      apply tracks_change
      have hindex : ledger.size - 1 - down < ledger.values.length := by
        unfold size at hdown ⊢
        omega
      have hlength := List.length_eraseIdx_of_lt hindex
      rw [Record.takeBack?, if_pos (by simp only; omega)]
      exact congrArg some (List.insertIdx_eraseIdx_getElem hindex)
  next => exact .refl ledger

/-- A value replaced is put back in its place. -/
theorem tracks_pokeAt (ledger : Ledger V) (down : Nat) (value : V) :
    Tracks ledger (ledger.pokeAt down value).2 := by
  unfold pokeAt
  split
  next hdown =>
      apply tracks_change
      have hindex : ledger.size - 1 - down < ledger.values.length := by
        unfold size at hdown ⊢
        omega
      rw [Record.takeBack?, if_pos (by simpa using hindex), List.set_set]
      exact congrArg some (List.set_getElem_self hindex)
  next => exact .refl ledger

/-- A copy is taken off again. -/
theorem tracks_dup (ledger : Ledger V) : Tracks ledger ledger.dup.2 := by
  unfold dup
  split
  next value hlast => exact tracks_push ledger value
  next => exact .refl ledger

/-- Values reversed are reversed once more. -/
theorem tracks_reverseTop (ledger : Ledger V) (count : Nat) :
    Tracks ledger (ledger.reverseTop count).2 := by
  unfold reverseTop
  split
  next hcount =>
      apply tracks_change
      unfold size at hcount ⊢
      -- The reversed values are all that is left from the index on.
      have hfront : (ledger.values.take (ledger.values.length - count)).length =
          ledger.values.length - count := List.length_take_of_le (Nat.sub_le _ _)
      have hback : (ledger.values.drop (ledger.values.length - count)).reverse.length = count := by
        simp only [List.length_reverse, List.length_drop]
        omega
      have hall : ledger.values.length - count + count = (ledger.values.take
          (ledger.values.length - count) ++
            (ledger.values.drop (ledger.values.length - count)).reverse).length := by
        rw [List.length_append, hfront, hback]
      rw [Record.takeBack?, if_pos (Nat.le_of_eq hall), List.take_left' hfront,
        List.drop_left' hfront, List.take_of_length_le (Nat.le_of_eq hback),
        List.drop_eq_nil_of_le (Nat.le_of_eq hall.symm)]
      simp
  next => exact .refl ledger

/-- Whatever an operation does, the journal can take it back. -/
theorem tracks_edit (ledger : Ledger V) (op : Stack.Edit V) :
    Tracks ledger (ledger.edit op).2 := by
  cases op with
  | push value => exact tracks_push ledger value
  | pushAll values => exact tracks_pushAll ledger values
  | pushAt down value => exact tracks_pushAt ledger down value
  | pop | discard => exact tracks_pop ledger
  | popAt down => exact tracks_popAt ledger down
  | poke value => exact tracks_pokeAt ledger 0 value
  | pokeAt down value => exact tracks_pokeAt ledger down value
  | dup => exact tracks_dup ledger
  | swap => exact tracks_reverseTop ledger 2
  | swap3 => exact tracks_reverseTop ledger 3
  | reverseTop count => exact tracks_reverseTop ledger count

/-! ## Operations that fail -/

/-- Taking from an empty row changes nothing. -/
theorem pop_of_error {error : ActionError} (h : ledger.pop.1 = .error error) :
    ledger.pop.2 = ledger := by
  unfold pop at h ⊢
  split at h
  next => cases h
  next => rfl

/-- Replacing a value that is not there changes nothing. -/
theorem pokeAt_of_error {down : Nat} {value : V} {error : ActionError}
    (h : (ledger.pokeAt down value).1 = .error error) : (ledger.pokeAt down value).2 = ledger := by
  unfold pokeAt at h ⊢
  split at h
  next => cases h
  next hnone => rw [dif_neg hnone]

/-- Reversing more values than there are changes nothing. -/
theorem reverseTop_of_error {count : Nat} {error : ActionError}
    (h : (ledger.reverseTop count).1 = .error error) : (ledger.reverseTop count).2 = ledger := by
  unfold reverseTop at h ⊢
  split at h
  next => cases h
  next hnone => rw [if_neg hnone]

/-- An operation that fails changes nothing. -/
theorem edit_of_error {op : Stack.Edit V} {error : ActionError}
    (h : (ledger.edit op).1 = .error error) : (ledger.edit op).2 = ledger := by
  cases op with
  | push value | pushAll values => cases h
  | pushAt down value =>
      simp only [Ledger.edit, pushAt] at h ⊢
      split at h
      next => cases h
      next hnone => rw [if_neg hnone]
  | pop => exact pop_of_error h
  | popAt down =>
      simp only [Ledger.edit, popAt] at h ⊢
      split at h
      next => cases h
      next hnone => rw [dif_neg hnone]
  | poke value => exact pokeAt_of_error h
  | pokeAt down value => exact pokeAt_of_error h
  | dup =>
      simp only [Ledger.edit, dup] at h ⊢
      split at h
      next => cases h
      next => rfl
  | discard =>
      cases hpop : ledger.pop.1 with
      | error error => exact pop_of_error hpop
      | ok answer =>
          simp only [Ledger.edit, hpop] at h
          cases h
  | swap => exact reverseTop_of_error h
  | swap3 => exact reverseTop_of_error h
  | reverseTop count => exact reverseTop_of_error h

/-! ## Closing a probe -/

/-- Cutting back to where new entries begin leaves the old ones. -/
theorem truncated_append (entries journal : List (Record V)) :
    truncated journal.length (entries ++ journal) = journal := by
  simp [truncated]

/-- Taking a probe back gives the ledger from before the probe. -/
theorem Tracks.endProbe?_eq (h : Tracks ledger.beginProbe after) :
    after.endProbe? ledger.journal.length = some ledger := by
  rcases h with ⟨hprobes, entries, hjournal, hentries⟩
  have hopen : 0 < ledger.beginProbe.probes := Nat.succ_pos _
  have hjournal : after.journal = entries ++ ledger.journal := hjournal
  have hlength : (entries ++ ledger.journal).length - ledger.journal.length = entries.length := by
    simp
  rw [if_pos hopen] at hentries
  rw [endProbe?, hjournal, hlength, List.take_left, hentries, truncated_append, hprobes]
  rfl

/-- Keeping a probe leaves the work to the enclosing probe. -/
theorem Tracks.commitProbe (h : Tracks ledger.beginProbe after) :
    Tracks ledger (after.commitProbe ledger.journal.length) := by
  rcases h with ⟨hprobes, entries, hjournal, hentries⟩
  have hprobes : after.probes - 1 = ledger.probes := by rw [hprobes]; rfl
  have hjournal : after.journal = entries ++ ledger.journal := hjournal
  have hinner : 0 < ledger.beginProbe.probes := Nat.succ_pos _
  rw [if_pos hinner] at hentries
  by_cases hopen : 0 < ledger.probes
  · refine ⟨hprobes, entries, ?_, by rw [if_pos hopen]; exact hentries⟩
    rw [Ledger.commitProbe, if_neg (by omega), hjournal]
  · refine ⟨hprobes, [], ?_, by rw [if_neg hopen]⟩
    rw [Ledger.commitProbe, if_pos (by omega), hjournal, truncated_append]
    rfl

end Ledger

end Peg
