import Mathlib.Data.Finmap
import Peg.Proofs.Action.Variables

/-!
# Rule variables as a stack of maps

One table holds the variables of all rule invocations in progress.  Read through the frame
starts it is a stack of finite maps: an invocation that starts puts an empty map on top, one
that ends drops it, and variables are read, set and taken in the map on top alone.

The invariant is that the frame starts cut the table into levels, one for each invocation
and one below them all, and that every level has at most one slot for a variable.  An
operation changes the level on top or adds or drops one; the levels below it are what they
were.

Main results:

- `Locals.Represents`: a table and a stack of maps hold the same variables.
- `Locals.Represents.perform`: an operation answers the same on both, and they go on holding
  the same variables.
- `Locals.performAll_eq_maps`: so does every sequence of operations.
-/

namespace Peg

variable {κ : Type} {T : κ → Type}

/-! ## Stacks of maps -/

/-- The variables of one invocation, each with the typed value that it holds. -/
abbrev VarMap {κ : Type} (T : κ → Type) : Type :=
  Finmap fun _ : Nat => Cell T

/-- The variables of the invocations in progress.  Below them is a map that no invocation has
put there: that of what runs outside of all invocations. -/
structure MapStack {κ : Type} (T : κ → Type) where
  /-- The map on top. -/
  top : VarMap T
  /-- The maps below it, the uppermost first. -/
  below : List (VarMap T)

namespace MapStack

/-- No variable is set, and no invocation in progress. -/
def empty : MapStack T :=
  ⟨∅, []⟩

/-- All maps, the one on top first. -/
def maps (stack : MapStack T) : List (VarMap T) :=
  stack.top :: stack.below

/-- Put an empty map on top. -/
def enter (stack : MapStack T) : MapStack T :=
  ⟨∅, stack.maps⟩

/-- Drop the map on top, if an invocation has put it there. -/
def leave (stack : MapStack T) : MapStack T :=
  match stack.below with
  | [] => stack
  | caller :: below => ⟨caller, below⟩

/-- The value of a variable in the map on top; of another type it is as good as none. -/
def get? [DecidableEq κ] (stack : MapStack T) (index : Nat) (kind : κ) : Option (T kind) :=
  (stack.top.lookup index).bind (Cell.read? kind)

/-- Set a variable in the map on top. -/
def set (stack : MapStack T) (index : Nat) (kind : κ) (content : T kind) : MapStack T :=
  { stack with top := stack.top.insert index ⟨kind, content⟩ }

/-- Take a variable out of the map on top; of another type its value is lost. -/
def take [DecidableEq κ] (stack : MapStack T) (index : Nat) (kind : κ) :
    Option (T kind) × MapStack T :=
  (stack.get? index kind, { stack with top := stack.top.erase index })

end MapStack

/-! ## Operations on variables -/

/-- What can be done with the variables of rule invocations. -/
inductive VarOp {κ : Type} (T : κ → Type) where
  | enter
  | leave
  | get (index : Nat) (kind : κ)
  | set (index : Nat) (kind : κ) (content : T kind)
  | take (index : Nat) (kind : κ)

/-- The value read, if one was asked for and is there. -/
abbrev VarAnswer {κ : Type} (T : κ → Type) : Type :=
  Option (Cell T)

/-- The answer that is a value of a type. -/
def VarAnswer.ofValue {kind : κ} (value? : Option (T kind)) : VarAnswer T :=
  value?.map (Sigma.mk kind)

/-- Perform operations one after another, with their answers. -/
def performAll {σ : Type} (perform : VarOp T → σ → VarAnswer T × σ) :
    List (VarOp T) → σ → List (VarAnswer T) × σ
  | [], state => ([], state)
  | op :: ops, state =>
    let (answer, next) := perform op state
    let (answers, last) := performAll perform ops next
    (answer :: answers, last)

/-- Perform an operation on the table. -/
def Locals.perform [DecidableEq κ] : VarOp T → Locals T → VarAnswer T × Locals T
  | .enter, locals => (none, locals.enter)
  | .leave, locals => (none, locals.leave)
  | .get index kind, locals => (.ofValue (locals.get? index kind), locals)
  | .set index kind content, locals => (none, locals.set index kind content)
  | .take index kind, locals =>
    let (value?, locals) := locals.take index kind
    (.ofValue value?, locals)

/-- Perform an operation on the stack of maps. -/
def MapStack.perform [DecidableEq κ] : VarOp T → MapStack T → VarAnswer T × MapStack T
  | .enter, stack => (none, stack.enter)
  | .leave, stack => (none, stack.leave)
  | .get index kind, stack => (.ofValue (stack.get? index kind), stack)
  | .set index kind content, stack => (none, stack.set index kind content)
  | .take index kind, stack =>
    let (value?, stack) := stack.take index kind
    (.ofValue value?, stack)

namespace Locals

/-! ## Levels of the table -/

/-- The slots between frame starts: those of the innermost invocation first, those outside of
all invocations last. -/
def levelsOf (slots : List (Slot T)) : List Nat → List (List (Slot T))
  | [] => [slots]
  | start :: outer => slots.drop start :: levelsOf (slots.take start) outer

/-- The slots of each invocation, innermost first, and those outside of all. -/
def levels (locals : Locals T) : List (List (Slot T)) :=
  levelsOf locals.slots locals.frames

/-- The levels below the innermost invocation, given the slots there. -/
def outerLevels (callers : List (Slot T)) : List Nat → List (List (Slot T))
  | [] => []
  | _ :: outer => levelsOf callers outer

/-- The innermost invocation has the level on top. -/
theorem levels_eq (locals : Locals T) :
    locals.levels = locals.frame :: outerLevels locals.callers locals.frames := by
  rcases locals with ⟨slots, _ | ⟨start, outer⟩⟩ <;> rfl

/-- An invocation starts with an empty level. -/
theorem levels_enter (locals : Locals T) : locals.enter.levels = [] :: locals.levels := by
  simp [levels, enter, levelsOf]

/-- The frame starts lie in the table, outer ones in front of inner ones, and no level has
two slots for a variable. -/
structure Leveled (locals : Locals T) : Prop where
  start_le : ∀ start ∈ locals.frames, start ≤ locals.slots.length
  sorted : locals.frames.Pairwise (· ≥ ·)
  nodup : ∀ level ∈ locals.levels, (level.map Slot.index).Nodup

variable {locals : Locals T}

/-- An empty table has one level, which is empty. -/
theorem leveled_empty : (empty : Locals T).Leveled :=
  ⟨nofun, .nil, by simp [levels, empty, levelsOf]⟩

/-- What holds of all levels holds of the innermost. -/
theorem Leveled.valid (h : locals.Leveled) : locals.Valid where
  frameStart_le := by
    have hstarts := h.start_le
    unfold frameStart
    cases hframes : locals.frames with
    | nil => exact Nat.zero_le _
    | cons start outer => exact hstarts start (hframes ▸ List.mem_cons_self)
  nodup := h.nodup _ (levels_eq locals ▸ List.mem_cons_self)

/-- An empty level keeps the others as they are. -/
theorem Leveled.enter (h : locals.Leveled) : locals.enter.Leveled where
  start_le := List.forall_mem_cons.2 ⟨Nat.le_refl _, h.start_le⟩
  sorted := List.pairwise_cons.2 ⟨h.start_le, h.sorted⟩
  nodup := by
    rw [levels_enter, List.forall_mem_cons]
    exact ⟨List.nodup_nil, h.nodup⟩

/-- The slots that stay when an invocation ends reach as far as its start. -/
theorem Leveled.leave (h : locals.Leveled) : locals.leave.Leveled := by
  rcases locals with ⟨slots, _ | ⟨start, outer⟩⟩
  · exact h
  · have hstarts := List.forall_mem_cons.1 h.start_le
    have hsorted := List.pairwise_cons.1 h.sorted
    have hlength : (slots.take start).length = start := List.length_take_of_le hstarts.1
    refine ⟨fun inner hinner => ?_, hsorted.2, (List.forall_mem_cons.1 h.nodup).2⟩
    have hle : inner ≤ start := hsorted.1 inner hinner
    change inner ≤ (slots.take start).length
    omega

/-- The innermost frame starts last. -/
theorem Leveled.le_frameStart (h : locals.Leveled) :
    ∀ start ∈ locals.frames, start ≤ locals.frameStart := by
  have hsorted := h.sorted
  unfold frameStart
  cases hframes : locals.frames with
  | nil => simp
  | cons inner outer =>
      rw [hframes, List.pairwise_cons] at hsorted
      simpa using hsorted.1

/-- New slots of the innermost invocation leave the levels below as they are. -/
theorem Valid.levels_replace (h : locals.Valid) (slots : List (Slot T)) :
    levels { locals with slots := locals.callers ++ slots } =
      slots :: outerLevels locals.callers locals.frames := by
  rw [levels_eq, h.frame_replace, (h.sameCallers_replace slots).callers_eq]

/-- The innermost level may be replaced by slots of different variables. -/
theorem Leveled.replace (h : locals.Leveled) {slots : List (Slot T)}
    (hslots : (slots.map Slot.index).Nodup) :
    Leveled { locals with slots := locals.callers ++ slots } where
  start_le start hstart := by
    have hlength := h.valid.length_callers
    have hle := h.le_frameStart start hstart
    rw [List.length_append]
    omega
  sorted := h.sorted
  nodup := by
    have hlevels := h.nodup
    rw [levels_eq, List.forall_mem_cons] at hlevels
    rw [h.valid.levels_replace, List.forall_mem_cons]
    exact ⟨hslots, hlevels.2⟩

/-! ## Tables and maps -/

/-- A level and a map hold the same variables. -/
def Holds (level : List (Slot T)) (map : VarMap T) : Prop :=
  ∀ index, map.lookup index = (level.find? (·.index == index)).map Slot.cell

/-- A table and a stack of maps hold the same variables, level by level. -/
structure Represents (locals : Locals T) (stack : MapStack T) : Prop where
  leveled : locals.Leveled
  holds : List.Forall₂ Holds locals.levels stack.maps

variable {stack : MapStack T}

theorem holds_empty : Holds ([] : List (Slot T)) ∅ :=
  fun _ => rfl

/-- An empty table stands for one empty map. -/
theorem represents_empty : Represents (empty : Locals T) MapStack.empty :=
  ⟨leveled_empty, .cons holds_empty .nil⟩

/-- The variables of the innermost invocation are in the map on top. -/
theorem Represents.lookup_top (h : Represents locals stack) (index : Nat) :
    stack.top.lookup index = locals.view index := by
  have hholds := h.holds
  rw [levels_eq] at hholds
  exact (List.forall₂_cons.1 hholds).1 index

/-- An empty level stands for an empty map. -/
theorem Represents.enter (h : Represents locals stack) :
    Represents locals.enter stack.enter where
  leveled := h.leveled.enter
  holds := by
    rw [levels_enter]
    exact .cons holds_empty h.holds

/-- With the slots of an invocation goes the map that it has put there. -/
theorem Represents.leave (h : Represents locals stack) :
    Represents locals.leave stack.leave := by
  refine ⟨h.leveled.leave, ?_⟩
  have hholds := h.holds
  rcases locals with ⟨slots, _ | ⟨start, outer⟩⟩
  · rcases stack with ⟨top, _ | ⟨caller, below⟩⟩
    · exact hholds
    · cases (List.forall₂_cons.1 hholds).2
  · rcases stack with ⟨top, _ | ⟨caller, below⟩⟩
    · have hlevels := (List.forall₂_cons.1 hholds).2
      cases outer <;> cases hlevels
    · exact (List.forall₂_cons.1 hholds).2

/-- The slots of the innermost invocation and the map on top are replaced. -/
theorem Represents.replace (h : Represents locals stack) {slots : List (Slot T)}
    {top : VarMap T} (hslots : (slots.map Slot.index).Nodup)
    (htop : ∀ index,
      top.lookup index = view { locals with slots := locals.callers ++ slots } index) :
    Represents { locals with slots := locals.callers ++ slots } { stack with top := top } where
  leveled := h.leveled.replace hslots
  holds := by
    have hholds := h.holds
    have hvalid := h.leveled.valid
    rw [levels_eq] at hholds
    rw [hvalid.levels_replace]
    refine .cons (fun index => ?_) (List.forall₂_cons.1 hholds).2
    rw [htop index, view, hvalid.frame_replace]

/-- A slot that is set stands for an entry that is inserted. -/
theorem Represents.set (h : Represents locals stack) (index : Nat) (kind : κ)
    (content : T kind) :
    Represents (locals.set index kind content) (stack.set index kind content) := by
  have hview := view_set h.leveled.valid index kind content
  refine h.replace (nodup_fill h.leveled.valid.nodup) fun other => ?_
  refine Eq.trans ?_ (congrFun hview other).symm
  by_cases hother : other = index
  · subst hother
    rw [Finmap.lookup_insert, Function.update_self]
  · rw [Finmap.lookup_insert_of_ne _ hother, Function.update_of_ne hother, h.lookup_top]

/-- A slot that is erased stands for an entry that is erased. -/
theorem Represents.erase (h : Represents locals stack) (index : Nat) :
    Represents (locals.erase index) { stack with top := stack.top.erase index } := by
  have hview := view_erase h.leveled.valid index
  refine h.replace ((List.eraseP_sublist.map Slot.index).nodup h.leveled.valid.nodup)
    fun other => ?_
  refine Eq.trans ?_ (congrFun hview other).symm
  by_cases hother : other = index
  · subst hother
    rw [Finmap.lookup_erase, Function.update_self]
  · rw [Finmap.lookup_erase_ne hother, Function.update_of_ne hother, h.lookup_top]

section Operations

variable [DecidableEq κ]

/-- A variable reads the same in both. -/
theorem Represents.get?_eq (h : Represents locals stack) (index : Nat) (kind : κ) :
    locals.get? index kind = stack.get? index kind := by
  rw [get?_eq_view, MapStack.get?, h.lookup_top]

/-- An operation answers the same on both, and they go on holding the same variables. -/
theorem Represents.perform (h : Represents locals stack) (op : VarOp T) :
    (locals.perform op).1 = (stack.perform op).1 ∧
      Represents (locals.perform op).2 (stack.perform op).2 := by
  cases op with
  | enter => exact ⟨rfl, h.enter⟩
  | leave => exact ⟨rfl, h.leave⟩
  | get index kind => exact ⟨congrArg VarAnswer.ofValue (h.get?_eq index kind), h⟩
  | set index kind content => exact ⟨rfl, h.set index kind content⟩
  | take index kind =>
      exact ⟨congrArg VarAnswer.ofValue (h.get?_eq index kind), h.erase index⟩

/-- So does every sequence of operations. -/
theorem Represents.performAll (h : Represents locals stack) (ops : List (VarOp T)) :
    (performAll Locals.perform ops locals).1 = (performAll MapStack.perform ops stack).1 ∧
      Represents (performAll Locals.perform ops locals).2
        (performAll MapStack.perform ops stack).2 := by
  induction ops generalizing locals stack with
  | nil => exact ⟨rfl, h⟩
  | cons op ops ih =>
      rcases h.perform op with ⟨hanswer, hnext⟩
      rcases ih hnext with ⟨hanswers, hlast⟩
      refine ⟨?_, hlast⟩
      simp only [Peg.performAll]
      rw [hanswer, hanswers]

/-- Whatever is done with the variables of rule invocations, the table answers like a stack of
finite maps.  At any time its levels hold what the maps hold, no level has two slots for a
variable, and the frame starts lie in the table, outer ones in front of inner ones. -/
theorem performAll_eq_maps (ops : List (VarOp T)) :
    (performAll Locals.perform ops empty).1 = (performAll MapStack.perform ops .empty).1 ∧
      List.Forall₂ Holds (performAll Locals.perform ops empty).2.levels
        (performAll MapStack.perform ops .empty).2.maps ∧
      (performAll Locals.perform ops empty).2.Leveled := by
  rcases represents_empty.performAll ops with ⟨hanswers, hlast⟩
  exact ⟨hanswers, hlast.holds, hlast.leveled⟩

end Operations

end Locals

end Peg
