import Peg.Parse.Event
import Peg.Parse.Stats

/-!
# Balanced events

Rule invocations are entered and left like parentheses.  In a list of events that is
balanced, what is entered is left again by the same rule, at the place where it was entered
if it did not match and not in front of it if it did; and what happens in between happens
no further to the front.  A parse that is aborted leaves a list that is broken off.

What a parse counts of itself can be read off its events.

Main results:

- `Event.Balanced.append`: balanced lists one after another.
- `Event.Balanced.offset_le` and `Event.Balanced.deepest_le`: nothing happens in front of
  where a balanced list starts, and nothing is nested deeper than there is room for.
- `Event.countP_enter_le` and `Event.exists_prefix_deepest`: how deeply invocations are nested.
- `Stats.Adds.append` and `Stats.Adds.call`: what is counted of several stretches, and of an
  invocation.
-/

namespace Peg

namespace Event

/-! ## Balanced lists -/

/-- Where something happened. -/
def offset : Event → Nat
  | enter _ offset | exit _ offset _ | memoHit _ offset | backtrack offset
  | recoveryPass offset | inserted offset => offset

/-- Events of a stretch of a pass, given the offset from which it may make repairs, if it may,
the number of invocations that may be nested, and the offset where the stretch starts. -/
inductive Balanced (errorOffset? : Option Nat) : Nat → Nat → List Event → Prop
  | nil {room start : Nat} : Balanced errorOffset? room start []
  | memoHit {room start offset : Nat} {id : RuleId} {events : List Event}
      (hstart : start ≤ offset) (hrest : Balanced errorOffset? room start events) :
      Balanced errorOffset? room start (.memoHit id offset :: events)
  | backtrack {room start offset : Nat} {events : List Event} (hstart : start ≤ offset)
      (hrest : Balanced errorOffset? room start events) :
      Balanced errorOffset? room start (.backtrack offset :: events)
  | inserted {room start offset errorOffset : Nat} {events : List Event}
      (herror : errorOffset? = some errorOffset) (hbehind : errorOffset ≤ offset)
      (hstart : start ≤ offset) (hrest : Balanced errorOffset? room start events) :
      Balanced errorOffset? room start (.inserted offset :: events)
  | call {room start first last : Nat} {id : RuleId} {matched : Bool}
      {inside events : List Event} (hstart : start ≤ first) (hle : first ≤ last)
      (hback : matched = false → last = first)
      (hinside : Balanced errorOffset? room first inside)
      (hrest : Balanced errorOffset? (room + 1) start events) :
      Balanced errorOffset? (room + 1) start
        (.enter id first :: (inside ++ .exit id last matched :: events))

/-- Events of a stretch that was broken off: they could have been balanced. -/
def BrokenOff (errorOffset? : Option Nat) (room start : Nat) (events : List Event) : Prop :=
  ∃ rest, Balanced errorOffset? room start (events ++ rest)

variable {errorOffset? : Option Nat} {room start first last : Nat} {id : RuleId}
variable {matched : Bool} {events later : List Event}

/-- Balanced lists one after another. -/
theorem Balanced.append (h : Balanced errorOffset? room start events)
    (hlater : Balanced errorOffset? room start later) :
    Balanced errorOffset? room start (events ++ later) := by
  induction h with
  | nil => exact hlater
  | memoHit hstart _ ih => exact .memoHit hstart (ih hlater)
  | backtrack hstart _ ih => exact .backtrack hstart (ih hlater)
  | inserted herror hbehind hstart _ ih => exact .inserted herror hbehind hstart (ih hlater)
  | call hstart hle hback hinside _ _ ih =>
      rw [List.cons_append, List.append_assoc, List.cons_append]
      exact .call hstart hle hback hinside (ih hlater)

/-- A stretch may be taken to start further to the front. -/
theorem Balanced.mono (h : Balanced errorOffset? room start events) (hle : first ≤ start) :
    Balanced errorOffset? room first events := by
  induction h with
  | nil => exact .nil
  | memoHit hstart _ ih => exact .memoHit (Nat.le_trans hle hstart) (ih hle)
  | backtrack hstart _ ih => exact .backtrack (Nat.le_trans hle hstart) (ih hle)
  | inserted herror hbehind hstart _ ih =>
      exact .inserted herror hbehind (Nat.le_trans hle hstart) (ih hle)
  | call hstart hle' hback hinside _ _ ih =>
      exact .call (Nat.le_trans hle hstart) hle' hback hinside (ih hle)

theorem Balanced.brokenOff (h : Balanced errorOffset? room start events) :
    BrokenOff errorOffset? room start events :=
  ⟨[], (List.append_nil events).symm ▸ h⟩

/-- A list that is broken off behind one that is balanced. -/
theorem Balanced.append_brokenOff (h : Balanced errorOffset? room start events)
    (hlater : BrokenOff errorOffset? room start later) :
    BrokenOff errorOffset? room start (events ++ later) := by
  rcases hlater with ⟨rest, hrest⟩
  refine ⟨rest, ?_⟩
  rw [List.append_assoc]
  exact h.append hrest

theorem BrokenOff.mono (h : BrokenOff errorOffset? room start events) (hle : first ≤ start) :
    BrokenOff errorOffset? room first events := by
  rcases h with ⟨rest, hrest⟩
  exact ⟨rest, hrest.mono hle⟩

/-- An invocation that is broken off could have come to nothing. -/
theorem BrokenOff.enter (h : BrokenOff errorOffset? room start events) (id : RuleId) :
    BrokenOff errorOffset? (room + 1) start (.enter id start :: events) := by
  rcases h with ⟨rest, hrest⟩
  refine ⟨rest ++ [.exit id start false], ?_⟩
  rw [List.cons_append, ← List.append_assoc]
  exact .call (Nat.le_refl _) (Nat.le_refl _) (fun _ => rfl) hrest .nil

/-- Nothing happens in front of where a balanced list starts. -/
theorem Balanced.offset_le (h : Balanced errorOffset? room start events) :
    ∀ event ∈ events, start ≤ event.offset := by
  induction h with
  | nil => nofun
  | memoHit hstart _ ih | backtrack hstart _ ih | inserted _ _ hstart _ ih =>
      exact List.forall_mem_cons.2 ⟨hstart, ih⟩
  | call hstart hle _ _ _ ihinside ih =>
      refine List.forall_mem_cons.2 ⟨hstart, List.forall_mem_append.2 ⟨?_, ?_⟩⟩
      · exact fun event hmem => Nat.le_trans hstart (ihinside event hmem)
      · exact List.forall_mem_cons.2 ⟨Nat.le_trans hstart hle, ih⟩

/-! ## Nesting -/

/-- An invocation is entered. -/
def isEnter : Event → Bool
  | enter .. => true
  | _ => false

/-- An invocation is left. -/
def isExit : Event → Bool
  | exit .. => true
  | _ => false

/-- A rule is known not to match. -/
def isMemoHit : Event → Bool
  | memoHit .. => true
  | _ => false

/-- A choice moves on. -/
def isBacktrack : Event → Bool
  | backtrack _ => true
  | _ => false

/-- A terminal is stood in for. -/
def isInserted : Event → Bool
  | inserted _ => true
  | _ => false

/-- The deepest nesting of invocations in a list of events. -/
def deepest : List Event → Nat
  | [] => 0
  | enter .. :: events => deepest events + 1
  | exit .. :: events => deepest events - 1
  | _ :: events => deepest events

/-- At no time more invocations have been entered and not left again. -/
theorem countP_enter_le {seen : List Event} (h : seen <+: events) :
    seen.countP isEnter ≤ seen.countP isExit + deepest events := by
  induction events generalizing seen with
  | nil =>
      rw [List.prefix_nil.1 h]
      exact Nat.zero_le _
  | cons event events ih =>
      rcases List.prefix_cons_iff.1 h with rfl | ⟨seen, rfl, hseen⟩
      · exact Nat.zero_le _
      · have hrest := ih hseen
        cases event <;> simp [List.countP_cons, isEnter, isExit, deepest] <;> omega

/-- At some time as many have been. -/
theorem exists_prefix_deepest (events : List Event) :
    ∃ seen, seen <+: events ∧ seen.countP isEnter = seen.countP isExit + deepest events := by
  induction events with
  | nil => exact ⟨[], List.prefix_refl [], rfl⟩
  | cons event events ih =>
      rcases ih with ⟨seen, hseen, hcount⟩
      by_cases hnone : deepest (event :: events) = 0
      · exact ⟨[], List.nil_prefix, by simp [hnone]⟩
      · refine ⟨event :: seen, List.cons_prefix_cons.2 ⟨rfl, hseen⟩, ?_⟩
        cases event <;> simp [List.countP_cons, isEnter, isExit, deepest] at hnone ⊢ <;> omega

/-- What is broken off is nested no deeper. -/
theorem deepest_le_append (events rest : List Event) :
    deepest events ≤ deepest (events ++ rest) := by
  induction events with
  | nil => exact Nat.zero_le _
  | cons event events ih => cases event <;> simp only [List.cons_append, deepest] <;> omega

/-- Behind a balanced list the nesting starts over. -/
theorem Balanced.deepest_append (h : Balanced errorOffset? room start events)
    (later : List Event) : deepest (events ++ later) = max (deepest events) (deepest later) := by
  induction h generalizing later with
  | nil => exact (Nat.zero_max _).symm
  | memoHit _ _ ih | backtrack _ _ ih | inserted _ _ _ _ ih => exact ih later
  | call _ _ _ _ _ ihinside ih =>
      simp only [List.cons_append, List.append_assoc, deepest, ihinside, ih]
      omega

/-- No more invocations are nested than there is room for. -/
theorem Balanced.deepest_le (h : Balanced errorOffset? room start events) :
    deepest events ≤ room := by
  induction h with
  | nil => exact Nat.zero_le _
  | memoHit _ _ ih | backtrack _ _ ih | inserted _ _ _ _ ih => exact ih
  | call _ _ _ hinside _ ihinside ih =>
      simp only [deepest, hinside.deepest_append]
      omega

theorem BrokenOff.deepest_le (h : BrokenOff errorOffset? room start events) :
    deepest events ≤ room := by
  rcases h with ⟨rest, hrest⟩
  exact Nat.le_trans (deepest_le_append events rest) hrest.deepest_le

end Event

/-! ## Counts -/

namespace Stats

open Event

/-- The counts are those of a list of events. -/
structure Tallies (stats : Stats) (events : List Event) : Prop where
  ruleCalls : stats.ruleCalls = events.countP isEnter
  memoHits : stats.memoHits = events.countP isMemoHit
  backtracks : stats.backtracks = events.countP isBacktrack
  recoveredErrors : stats.recoveredErrors = events.countP isInserted
  maxDepth : stats.maxDepth = deepest events

/-- What is observed of a stretch of a pass, in which a number of invocations is in progress
when it starts, is added to the counts. -/
structure Adds (depth : Nat) (events : List Event) (before after : Stats) : Prop where
  ruleCalls : after.ruleCalls = before.ruleCalls + events.countP isEnter
  memoHits : after.memoHits = before.memoHits + events.countP isMemoHit
  backtracks : after.backtracks = before.backtracks + events.countP isBacktrack
  recoveredErrors : after.recoveredErrors = before.recoveredErrors + events.countP isInserted
  le_maxDepth : before.maxDepth ≤ after.maxDepth
  maxDepth : max after.maxDepth depth = max before.maxDepth (depth + deepest events)

variable {errorOffset? : Option Nat} {room start depth : Nat} {events later : List Event}
variable {a b c : Stats}

/-- Some counts are of nothing that is observed. -/
theorem adds_nil (stats : Stats) (memoMisses actionsRun : Nat) :
    Adds depth [] stats { stats with memoMisses := memoMisses, actionsRun := actionsRun } :=
  ⟨rfl, rfl, rfl, rfl, Nat.le_refl _, rfl⟩

theorem Adds.append (h : Adds depth events a b) (hlater : Adds depth later b c)
    (hevents : Balanced errorOffset? room start events) : Adds depth (events ++ later) a c where
  ruleCalls := by rw [List.countP_append, hlater.ruleCalls, h.ruleCalls, Nat.add_assoc]
  memoHits := by rw [List.countP_append, hlater.memoHits, h.memoHits, Nat.add_assoc]
  backtracks := by rw [List.countP_append, hlater.backtracks, h.backtracks, Nat.add_assoc]
  recoveredErrors := by
    rw [List.countP_append, hlater.recoveredErrors, h.recoveredErrors, Nat.add_assoc]
  le_maxDepth := Nat.le_trans h.le_maxDepth hlater.le_maxDepth
  maxDepth := by
    have hfirst := h.maxDepth
    have hsecond := hlater.maxDepth
    rw [hevents.deepest_append]
    omega

/-- An invocation is counted when it is entered. -/
theorem Adds.call {id : RuleId} {first last : Nat} {matched : Bool}
    (h : Adds (depth + 1) events
      { a with ruleCalls := a.ruleCalls + 1, maxDepth := max a.maxDepth (depth + 1) } b)
    (hevents : Balanced errorOffset? room start events) :
    Adds depth (.enter id first :: (events ++ [.exit id last matched])) a b where
  ruleCalls := by
    simp [h.ruleCalls, List.countP_cons, isEnter]
    omega
  memoHits := by simp [h.memoHits, isMemoHit]
  backtracks := by simp [h.backtracks, isBacktrack]
  recoveredErrors := by simp [h.recoveredErrors, isInserted]
  le_maxDepth := Nat.le_trans (Nat.le_max_left _ _) h.le_maxDepth
  maxDepth := by
    have hle := h.le_maxDepth
    have hinside := h.maxDepth
    simp only [deepest, hevents.deepest_append] at hle hinside ⊢
    omega

/-- The counts of a whole pass. -/
theorem Adds.tallies (h : Adds 0 events empty a) : a.Tallies events where
  ruleCalls := h.ruleCalls.trans (Nat.zero_add _)
  memoHits := h.memoHits.trans (Nat.zero_add _)
  backtracks := h.backtracks.trans (Nat.zero_add _)
  recoveredErrors := h.recoveredErrors.trans (Nat.zero_add _)
  maxDepth := by simpa [empty] using h.maxDepth

/-- The counts of two passes. -/
theorem Tallies.merge (h : a.Tallies events) (hlater : b.Tallies later)
    (hevents : Balanced errorOffset? room start events) (errorOffset : Nat) :
    (a.merge b).Tallies (events ++ .recoveryPass errorOffset :: later) where
  ruleCalls := by simp [Stats.merge, h.ruleCalls, hlater.ruleCalls, isEnter]
  memoHits := by simp [Stats.merge, h.memoHits, hlater.memoHits, isMemoHit]
  backtracks := by simp [Stats.merge, h.backtracks, hlater.backtracks, isBacktrack]
  recoveredErrors := by
    simp [Stats.merge, h.recoveredErrors, hlater.recoveredErrors, isInserted]
  maxDepth := by
    rw [hevents.deepest_append]
    simp only [Stats.merge, h.maxDepth, hlater.maxDepth, deepest]

end Stats

end Peg
