import Mathlib.Logic.Function.Basic
import Peg.Action.Program

/-!
# Rule variables as a map

The slots of the innermost rule invocation, read as a map from variables to typed
values, and the callers' slots in front of them.  Every operation on variables
works on that map alone: the callers' part of the table stays as it is until the
invocation ends.

Main results:

- `Locals.view_set`, `Locals.view_erase` and `Locals.get?_eq_view`: the operations
  on the flat table are the operations on the map.
- `Locals.SameCallers.leave_eq`: when an invocation ends, its caller's variables
  are what they were when it began.
- `Workspace.callers_run`: an action leaves the callers' variables alone.
-/

namespace Peg

/-! ## Cells -/

/-- A typed value that a variable may hold. -/
abbrev Cell {κ : Type} (T : κ → Type) : Type :=
  (kind : κ) × T kind

/-- The value of a cell, if it has the type asked for. -/
def Cell.read? {κ : Type} [DecidableEq κ] {T : κ → Type} (kind : κ) (cell : Cell T) :
    Option (T kind) :=
  if same : cell.1 = kind then some (same ▸ cell.2) else none

/-- What a slot holds. -/
def Slot.cell {κ : Type} {T : κ → Type} (slot : Slot T) : Cell T :=
  ⟨slot.kind, slot.content⟩

namespace Locals

variable {κ : Type} {T : κ → Type}

/-- The variables of the innermost invocation. -/
def view (locals : Locals T) (index : Nat) : Option (Cell T) :=
  (locals.frame.find? (·.index == index)).map Slot.cell

/-- The innermost invocation's slots lie in the table, at most one for each
variable. -/
structure Valid (locals : Locals T) : Prop where
  frameStart_le : locals.frameStart ≤ locals.slots.length
  nodup : (locals.frame.map Slot.index).Nodup

/-- The same invocations are in progress, and the callers' slots are the same. -/
structure SameCallers (before after : Locals T) : Prop where
  frames_eq : after.frames = before.frames
  callers_eq : after.callers = before.callers

/-- The callers are their own. -/
theorem SameCallers.refl (locals : Locals T) : SameCallers locals locals :=
  ⟨rfl, rfl⟩

/-- A stretch behind another. -/
theorem SameCallers.trans {a b c : Locals T} (hab : SameCallers a b) (hbc : SameCallers b c) :
    SameCallers a c :=
  ⟨hbc.frames_eq.trans hab.frames_eq, hbc.callers_eq.trans hab.callers_eq⟩

/-! ## Invocations -/

/-- An empty table is valid. -/
theorem valid_empty : (empty : Locals T).Valid :=
  ⟨Nat.le_refl 0, List.nodup_nil⟩

/-- An invocation starts with no slots of its own. -/
theorem valid_enter (locals : Locals T) : locals.enter.Valid :=
  ⟨Nat.le_refl _, by simp⟩

/-- A new invocation has no variables set. -/
@[simp] theorem view_enter (locals : Locals T) : locals.enter.view = fun _ => none := by
  funext index
  simp [view]

/-- Whatever an invocation did to its own variables, its end brings back the
caller's. -/
theorem SameCallers.leave_eq {locals after : Locals T} (h : SameCallers locals.enter after) :
    after.leave = locals := by
  have hframes : after.frames = locals.slots.length :: locals.frames := h.frames_eq
  have hcallers : after.slots.take locals.slots.length = locals.slots := by
    simpa [callers, frameStart, hframes, enter] using h.callers_eq
  simp [leave, hframes, hcallers]

/-! ## Filling and emptying slots -/

/-- Looking up a variable after a slot was filled. -/
theorem find?_fill (slot : Slot T) (slots : List (Slot T)) (index : Nat) :
    (fill slot slots).find? (·.index == index) =
      if slot.index = index then some slot else slots.find? (·.index == index) := by
  induction slots with
  | nil => by_cases hindex : slot.index = index <;> simp [fill, hindex]
  | cons other slots ih =>
      by_cases hother : other.index = slot.index
      · by_cases hindex : slot.index = index <;> simp [fill, hother, hindex]
      · by_cases hhead : other.index = index
        · have hindex : slot.index ≠ index := fun h => hother (hhead.trans h.symm)
          rw [fill, if_neg hother, if_neg hindex]
          simp [hhead]
        · rw [fill, if_neg hother]
          simp [hhead, ih]

/-- Filling a slot adds its variable if it has no slot yet. -/
theorem map_index_fill (slot : Slot T) (slots : List (Slot T)) :
    (fill slot slots).map Slot.index =
      if slot.index ∈ slots.map Slot.index then slots.map Slot.index
      else slots.map Slot.index ++ [slot.index] := by
  induction slots with
  | nil => simp [fill]
  | cons other slots ih =>
      by_cases hother : other.index = slot.index
      · simp [fill, hother]
      · have hne : slot.index ≠ other.index := fun h => hother h.symm
        by_cases hmem : slot.index ∈ slots.map Slot.index
        · simp only [fill, hother, if_false, List.map_cons, ih, hmem, if_true, List.mem_cons,
            hne, false_or]
        · simp only [fill, hother, if_false, List.map_cons, ih, hmem, List.mem_cons, hne,
            or_self, List.cons_append]

/-- Filling a slot keeps at most one slot for each variable. -/
theorem nodup_fill {slot : Slot T} {slots : List (Slot T)} (h : (slots.map Slot.index).Nodup) :
    ((fill slot slots).map Slot.index).Nodup := by
  rw [map_index_fill]
  split
  next => exact h
  next hmem =>
      rw [List.nodup_append]
      refine ⟨h, by simp, ?_⟩
      intro a ha b hb hab
      rw [List.mem_singleton] at hb
      exact hmem (hb ▸ hab ▸ ha)

/-- Looking up a variable after a slot was emptied. -/
theorem find?_eraseP {slots : List (Slot T)} (h : (slots.map Slot.index).Nodup)
    (erased index : Nat) :
    (slots.eraseP (·.index == erased)).find? (·.index == index) =
      if erased = index then none else slots.find? (·.index == index) := by
  induction slots with
  | nil => simp
  | cons other slots ih =>
      rw [List.map_cons, List.nodup_cons] at h
      by_cases hother : other.index = erased
      · subst hother
        by_cases hindex : other.index = index
        · subst hindex
          have hnone : slots.find? (·.index == other.index) = none := by
            rw [List.find?_eq_none]
            intro slot hslot heq
            exact h.1 (List.mem_map.2 ⟨slot, hslot, by simpa using heq⟩)
          simp [hnone]
        · simp [hindex]
      · rw [List.eraseP_cons_of_neg (by simpa using hother)]
        by_cases hindex : other.index = index
        · have hne : erased ≠ index := fun heq => hother (hindex.trans heq.symm)
          simp [hindex, hne]
        · simp [hindex, ih h.2]

/-! ## Operations on the table -/

section Table

variable {locals : Locals T}

theorem Valid.length_callers (h : locals.Valid) : locals.callers.length = locals.frameStart := by
  rw [callers, List.length_take, Nat.min_eq_left h.frameStart_le]

/-- Replacing the innermost invocation's slots leaves the callers alone. -/
theorem Valid.sameCallers_replace (h : locals.Valid) (slots : List (Slot T)) :
    SameCallers locals { locals with slots := locals.callers ++ slots } :=
  ⟨rfl, List.take_left' h.length_callers⟩

/-- The innermost invocation's slots after they were replaced. -/
theorem Valid.frame_replace (h : locals.Valid) (slots : List (Slot T)) :
    frame { locals with slots := locals.callers ++ slots } = slots :=
  List.drop_left' h.length_callers

/-- Replacing the innermost invocation's slots needs one slot for each variable. -/
theorem Valid.replace (h : locals.Valid) {slots : List (Slot T)}
    (hslots : (slots.map Slot.index).Nodup) :
    Valid { locals with slots := locals.callers ++ slots } where
  frameStart_le := by
    have hlength := h.length_callers
    simp only [frameStart, List.length_append] at hlength ⊢
    omega
  nodup := by rwa [h.frame_replace]

/-- Setting a variable keeps one slot for each. -/
theorem Valid.set (h : locals.Valid) (index : Nat) (kind : κ) (content : T kind) :
    (locals.set index kind content).Valid :=
  h.replace (nodup_fill h.nodup)

/-- Erasing a variable leaves at most one slot for each. -/
theorem Valid.erase (h : locals.Valid) (index : Nat) : (locals.erase index).Valid :=
  h.replace ((List.eraseP_sublist.map Slot.index).nodup h.nodup)

/-- Setting a variable changes the map at that variable. -/
theorem view_set (h : locals.Valid) (index : Nat) (kind : κ) (content : T kind) :
    (locals.set index kind content).view =
      Function.update locals.view index (some ⟨kind, content⟩) := by
  funext other
  have hfind := find?_fill (⟨index, kind, content⟩ : Slot T) locals.frame other
  by_cases heq : index = other
  · subst heq
    simp [view, Locals.set, h.frame_replace, hfind, Slot.cell]
  · have hne : other ≠ index := fun hother => heq hother.symm
    simp [view, Locals.set, h.frame_replace, hfind, heq, Function.update_of_ne hne]

/-- Emptying the slot of a variable unsets it. -/
theorem view_erase (h : locals.Valid) (index : Nat) :
    (locals.erase index).view = Function.update locals.view index none := by
  funext other
  have hfind := find?_eraseP h.nodup index other
  by_cases heq : index = other
  · subst heq
    simp [view, Locals.erase, h.frame_replace, hfind]
  · have hne : other ≠ index := fun hother => heq hother.symm
    simp [view, Locals.erase, h.frame_replace, hfind, heq, Function.update_of_ne hne]

/-- A variable is read from the map. -/
theorem get?_eq_view [DecidableEq κ] (locals : Locals T) (index : Nat) (kind : κ) :
    locals.get? index kind = (locals.view index).bind (Cell.read? kind) := by
  unfold get? view
  cases locals.frame.find? (·.index == index) <;> rfl

end Table

end Locals

/-! ## Actions -/

namespace Workspace

variable {V : Type}

/-- Operations on the stack leave the variables as they are. -/
@[simp] theorem vars_update {α : Type} (space : Workspace V)
    (outcome : Except ActionError (α × Stack V)) : (space.update outcome).2.vars = space.vars := by
  cases outcome <;> rfl

/-- An operation keeps the callers' variables, and the table valid. -/
theorem callers_perform (space : Workspace V) (h : space.vars.Valid) (op : Op V) :
    (space.perform op).2.vars.Valid ∧ space.vars.SameCallers (space.perform op).2.vars := by
  cases op with
  | set index kind content => exact ⟨h.set index kind content, h.sameCallers_replace _⟩
  | take index kind => exact ⟨h.erase index, h.sameCallers_replace _⟩
  | push _ | peekAt _ | values | get _ _ => exact ⟨h, .refl _⟩
  | pushAt _ _ | popAt _ | pokeAt _ _ | dup | reverseTop _ =>
      simp only [perform, vars_update]
      exact ⟨h, .refl _⟩

/-- An action keeps the callers' variables, and the table valid. -/
theorem callers_run {α : Type} (program : Program V α) (space : Workspace V)
    (h : space.vars.Valid) :
    (program.run space).2.vars.Valid ∧ space.vars.SameCallers (program.run space).2.vars := by
  induction program generalizing space with
  | done result => exact ⟨h, .refl _⟩
  | fail error => exact ⟨h, .refl _⟩
  | perform op next ih =>
      have hstep := space.callers_perform h op
      have hrest := ih (space.perform op).1 (space.perform op).2 hstep.1
      exact ⟨hrest.1, hstep.2.trans hrest.2⟩

end Workspace

end Peg
