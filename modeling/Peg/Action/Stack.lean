import Peg.Action.Error

/-!
# The value stack

Actions build their results on a stack of values.  Depths count from the top:
the most recently pushed value has depth zero.

A lookahead opens a probe on the stack.  While probes are open, every change is
entered in the journal of the innermost one together with what undoes it.  A
probe is closed by rolling back its changes or by keeping them; kept changes go
to the journal of the enclosing probe, which may still roll them back.

Main results:

- `rollback_openProbe`: opening a probe and rolling it back changes nothing.
- `undo_pushAt`, `undo_popAt`, `undo_pokeAt` and `undo_reverse`: each journal
  entry takes back the change it was written for.
-/

namespace Peg

/-- What takes back one change of a list of values. -/
inductive Undo (V : Type) where
  /-- Put a value back at a depth. -/
  | insert (down : Nat) (value : V)
  /-- Take the value at a depth away. -/
  | remove (down : Nat)
  /-- Put another value in the place of the one at a depth. -/
  | replace (down : Nat) (value : V)
  /-- Reverse the topmost values. -/
  | reverse (count : Nat)
  deriving Repr

/-- The values with the topmost `count` of them in reverse order. -/
def reverseFirst {V : Type} (count : Nat) (values : List V) : List V :=
  (values.take count).reverse ++ values.drop count

/-- Take back one change. -/
def Undo.apply {V : Type} : Undo V → List V → List V
  | insert down value, values => values.insertIdx down value
  | remove down, values => values.eraseIdx down
  | replace down value, values => values.set down value
  | reverse count, values => reverseFirst count values

/-- A stack of values. -/
structure Stack (V : Type) where
  /-- The values, topmost first. -/
  values : List V
  /-- The journals of the open probes, innermost first; each journal holds the
  entries of its probe, newest first. -/
  journals : List (List (Undo V))
  deriving Repr

namespace Stack

variable {V : Type}

/-- The stack without values and without open probes. -/
def empty : Stack V :=
  ⟨[], []⟩

instance : Inhabited (Stack V) :=
  ⟨empty⟩

/-- The stack that holds the given values, topmost last. -/
def ofList (values : List V) : Stack V :=
  ⟨values.reverse, []⟩

/-- The values, topmost last. -/
def toList (stack : Stack V) : List V :=
  stack.values.reverse

/-- Number of values. -/
def size (stack : Stack V) : Nat :=
  stack.values.length

/-- Number of open probes. -/
def probes (stack : Stack V) : Nat :=
  stack.journals.length

/-! ## Probes -/

/-- Enter a change in the innermost open journal. -/
def enter (undo : Undo V) : List (List (Undo V)) → List (List (Undo V))
  | [] => []
  | journal :: outer => (undo :: journal) :: outer

/-- Change the values, noting what takes the change back. -/
def change (stack : Stack V) (values : List V) (undo : Undo V) : Stack V :=
  ⟨values, enter undo stack.journals⟩

/-- Open a probe. -/
def openProbe (stack : Stack V) : Stack V :=
  { stack with journals := [] :: stack.journals }

/-- Close the innermost probe, keeping its changes. -/
def commit (stack : Stack V) : Stack V :=
  match stack.journals with
  | journal :: outer :: rest => { stack with journals := (journal ++ outer) :: rest }
  | _ => { stack with journals := [] }

/-- Take back the changes of a journal, newest first. -/
def replay (journal : List (Undo V)) (values : List V) : List V :=
  journal.foldl (fun values undo => undo.apply values) values

/-- Close the innermost probe, taking back its changes. -/
def rollback (stack : Stack V) : Stack V :=
  match stack.journals with
  | [] => stack
  | journal :: outer => ⟨replay journal stack.values, outer⟩

/-! ## Operations -/

/-- Put a value on top. -/
def push (stack : Stack V) (value : V) : Stack V :=
  stack.change (value :: stack.values) (.remove 0)

/-- Put values on top one after another. -/
def pushAll (stack : Stack V) (values : List V) : Stack V :=
  values.foldl push stack

/-- Put a value in so that it ends up at a depth. -/
def pushAt (stack : Stack V) (down : Nat) (value : V) : Except ActionError (Stack V) :=
  if down ≤ stack.size then
    .ok (stack.change (stack.values.insertIdx down value) (.remove down))
  else .error (.underflow .pushAt down stack.size)

/-- The value at a depth. -/
def peekAt (stack : Stack V) (down : Nat) : Except ActionError V :=
  match stack.values[down]? with
  | some value => .ok value
  | none => .error (.noValueAt .peek down stack.size)

/-- The topmost value. -/
def peek (stack : Stack V) : Except ActionError V :=
  stack.peekAt 0

/-- Take out the value at a depth. -/
def popAt (stack : Stack V) (down : Nat) : Except ActionError (V × Stack V) :=
  match stack.values[down]? with
  | some value => .ok (value, stack.change (stack.values.eraseIdx down) (.insert down value))
  | none => .error (.noValueAt .pop down stack.size)

/-- Take out the topmost value. -/
def pop (stack : Stack V) : Except ActionError (V × Stack V) :=
  stack.popAt 0

/-- Take out the topmost value and forget it. -/
def discard (stack : Stack V) : Except ActionError (Stack V) :=
  stack.pop.map (·.2)

/-- Replace the value at a depth, giving the one that was there. -/
def pokeAt (stack : Stack V) (down : Nat) (value : V) : Except ActionError (V × Stack V) :=
  match stack.values[down]? with
  | some previous =>
    .ok (previous, stack.change (stack.values.set down value) (.replace down previous))
  | none => .error (.noValueAt .poke down stack.size)

/-- Replace the topmost value, giving the one that was there. -/
def poke (stack : Stack V) (value : V) : Except ActionError (V × Stack V) :=
  stack.pokeAt 0 value

/-- Put a copy of the topmost value on top. -/
def dup (stack : Stack V) : Except ActionError (Stack V) :=
  match stack.values with
  | value :: _ => .ok (stack.push value)
  | [] => .error (.underflow .dup 1 0)

/-- Reverse the order of the topmost values. -/
def reverseTop (stack : Stack V) (count : Nat) : Except ActionError (Stack V) :=
  if count ≤ stack.size then
    .ok (stack.change (reverseFirst count stack.values) (.reverse count))
  else .error (.underflow .swap count stack.size)

/-- Exchange the two topmost values. -/
def swap (stack : Stack V) : Except ActionError (Stack V) :=
  stack.reverseTop 2

/-- Reverse the three topmost values. -/
def swap3 (stack : Stack V) : Except ActionError (Stack V) :=
  stack.reverseTop 3

/-! ## Laws of single steps -/

@[simp] theorem toList_ofList (values : List V) : (ofList values).toList = values := by
  simp [ofList, toList]

@[simp] theorem toList_push (stack : Stack V) (value : V) :
    (stack.push value).toList = stack.toList ++ [value] := by
  simp [push, change, toList]

@[simp] theorem probes_openProbe (stack : Stack V) :
    stack.openProbe.probes = stack.probes + 1 := by
  simp [openProbe, probes]

/-- Opening a probe and rolling it back changes nothing. -/
@[simp] theorem rollback_openProbe (stack : Stack V) : stack.openProbe.rollback = stack := by
  simp [openProbe, rollback, replay]

/-- Reversing the topmost values twice gives them back. -/
@[simp] theorem undo_reverse (count : Nat) (values : List V) :
    (Undo.reverse count).apply (reverseFirst count values) = values := by
  rcases Nat.le_total count values.length with h | h
  · simp [Undo.apply, reverseFirst, Nat.min_eq_left h]
  · have h' : values.reverse.length ≤ count := by simpa using h
    simp [Undo.apply, reverseFirst, List.take_of_length_le h, List.drop_eq_nil_of_le h,
      List.take_of_length_le h', List.drop_eq_nil_of_le h']

/-- Removing a value that was put in gives the values back. -/
theorem undo_pushAt (down : Nat) (values : List V) (value : V) :
    (Undo.remove down).apply (values.insertIdx down value) = values := by
  simp [Undo.apply, List.eraseIdx_insertIdx_self]

/-- Putting back a value that was taken out gives the values back. -/
theorem undo_popAt {down : Nat} {values : List V} {value : V} (h : values[down]? = some value) :
    (Undo.insert down value).apply (values.eraseIdx down) = values := by
  induction values generalizing down with
  | nil => simp at h
  | cons head values ih =>
    cases down with
    | zero => simp only [List.getElem?_cons_zero, Option.some.injEq] at h; simp [Undo.apply, h]
    | succ down =>
      have := ih (by simpa using h)
      simp only [Undo.apply] at this ⊢
      simp [this]

/-- Putting back a value that was replaced gives the values back. -/
theorem undo_pokeAt {down : Nat} {values : List V} {previous : V}
    (h : values[down]? = some previous) (value : V) :
    (Undo.replace down previous).apply (values.set down value) = values := by
  simp only [Undo.apply, List.set_set]
  obtain ⟨hd, rfl⟩ := List.getElem?_eq_some_iff.1 h
  exact List.set_getElem_self hd

end Stack

end Peg
