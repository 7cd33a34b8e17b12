/-!
# Rule variables

Every rule invocation has variables of its own, all unset when it starts.  A
variable is an index; its slot holds a value of one of several types and reads
as unset at any other type.

The slots of all invocations in progress share one table, in which the slots of
an invocation follow those of its caller.  A list of frame starts says where the
slots of each invocation begin.

Main results:

- `leave_enter`: an invocation that ends leaves its caller's variables as they
  were.
- `get?_enter`: in a new invocation every variable is unset.
-/

namespace Peg

/-- A variable that is set: its index, and a value of one of the types of a
family. -/
structure Slot {κ : Type} (T : κ → Type) where
  /-- The index of the variable. -/
  index : Nat
  /-- Which type the value has. -/
  kind : κ
  /-- The value. -/
  content : T kind

/-- The value of a slot, if it has the type asked for. -/
def Slot.read? {κ : Type} [DecidableEq κ] {T : κ → Type} (kind : κ) (slot : Slot T) :
    Option (T kind) :=
  if same : slot.kind = kind then some (same ▸ slot.content) else none

/-- The variables of all rule invocations in progress. -/
structure Locals {κ : Type} (T : κ → Type) where
  /-- The slots, those of the innermost invocation last. -/
  slots : List (Slot T)
  /-- How many slots stand in front of each invocation's own, innermost first. -/
  frames : List Nat

namespace Locals

variable {κ : Type} {T : κ → Type}

/-- No invocation in progress. -/
def empty : Locals T :=
  ⟨[], []⟩

instance : Inhabited (Locals T) :=
  ⟨empty⟩

/-- How many slots stand in front of the innermost invocation's own. -/
def frameStart (locals : Locals T) : Nat :=
  locals.frames.headD 0

/-- The slots of the innermost invocation. -/
def frame (locals : Locals T) : List (Slot T) :=
  locals.slots.drop locals.frameStart

/-- The slots of the callers. -/
def callers (locals : Locals T) : List (Slot T) :=
  locals.slots.take locals.frameStart

/-- Start an invocation. -/
def enter (locals : Locals T) : Locals T :=
  { locals with frames := locals.slots.length :: locals.frames }

/-- End the innermost invocation, dropping its variables. -/
def leave (locals : Locals T) : Locals T :=
  match locals.frames with
  | [] => locals
  | start :: outer => ⟨locals.slots.take start, outer⟩

/-- Fill the slot of a variable, in place if there is one and at the end
otherwise. -/
def fill (slot : Slot T) : List (Slot T) → List (Slot T)
  | [] => [slot]
  | other :: slots =>
    if other.index = slot.index then slot :: slots else other :: fill slot slots

/-- The value of a variable at a type. -/
def get? [DecidableEq κ] (locals : Locals T) (index : Nat) (kind : κ) : Option (T kind) :=
  (locals.frame.find? (·.index == index)).bind (·.read? kind)

/-- Set a variable, whatever it held before. -/
def set (locals : Locals T) (index : Nat) (kind : κ) (content : T kind) : Locals T :=
  { locals with slots := locals.callers ++ fill ⟨index, kind, content⟩ locals.frame }

/-- Empty the slot of a variable. -/
def erase (locals : Locals T) (index : Nat) : Locals T :=
  { locals with slots := locals.callers ++ locals.frame.eraseP (·.index == index) }

/-- Take the value of a variable; its slot is emptied even if the value has
another type. -/
def take [DecidableEq κ] (locals : Locals T) (index : Nat) (kind : κ) :
    Option (T kind) × Locals T :=
  (locals.get? index kind, locals.erase index)

/-- The own slots and the callers' make up the table. -/
@[simp] theorem callers_append_frame (locals : Locals T) :
    locals.callers ++ locals.frame = locals.slots := by
  simp [callers, frame]

/-- A new invocation has no slots. -/
@[simp] theorem frame_enter (locals : Locals T) : locals.enter.frame = [] := by
  simp [enter, frame, frameStart]

/-- In a new invocation every variable is unset. -/
@[simp] theorem get?_enter [DecidableEq κ] (locals : Locals T) (index : Nat) (kind : κ) :
    locals.enter.get? index kind = none := by
  simp [get?]

/-- An invocation that ends leaves its caller's variables as they were. -/
@[simp] theorem leave_enter (locals : Locals T) : locals.enter.leave = locals := by
  simp [enter, leave]

/-- Setting a variable keeps the frames. -/
@[simp] theorem frames_set (locals : Locals T) (index : Nat) (kind : κ) (content : T kind) :
    (locals.set index kind content).frames = locals.frames :=
  rfl

/-- Emptying a slot keeps the frames. -/
@[simp] theorem frames_erase (locals : Locals T) (index : Nat) :
    (locals.erase index).frames = locals.frames :=
  rfl

end Locals

end Peg
