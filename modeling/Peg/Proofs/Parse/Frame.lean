import Peg.Parse.Eval
import Peg.Proofs.Action.Journal
import Peg.Proofs.Action.Variables

/-!
# The frame of a stretch of a parse

Every way of combining expressions opens something before it evaluates a part,
and closes it afterwards: a probe, a round of a choice, a label, a rule
invocation, a commitment.  The frame says what such a stretch leaves as it was:
everything that was open before is open again, the reading head has not moved
back, finished nodes and repairs have only been added, and the stack can still
be brought back to what it was.

Main results:

- `Machine.Frame.trans`: stretches are put together.
- `Machine.Frame.keepRound`, `Machine.Frame.undoRound`, `Machine.Frame.closeProbe`,
  `Machine.Frame.closeScope` and `Machine.Frame.leaveRule`: closing what was opened
  gives a stretch of the surroundings.
-/

namespace Peg

open Text

variable {V : Type}

namespace Machine

/-- The reading head stands at a character boundary of the text, and the table of
variables is in order. -/
structure Valid (env : Env V) (m : Machine V) : Prop where
  within : m.cursor.Within env.source.text
  vars : m.vars.Valid

/-- What an evaluation from one machine to another leaves as it was. -/
structure Frame (env : Env V) (m left : Machine V) : Prop where
  valid : left.Valid env
  offset_le : m.offset ≤ left.offset
  tracks : m.stack.Tracks left.stack
  callers : m.vars.SameCallers left.vars
  nodes : m.nodes <:+ left.nodes
  suppressed : left.suppressed = m.suppressed
  depth : left.depth = m.depth
  probes : left.probes = m.probes
  rule? : left.rule? = m.rule?
  scopes : left.scopes = m.scopes
  committed : left.committed = m.committed
  mayInsert : left.mayInsert = m.mayInsert
  gaps : m.gaps <:+ left.gaps
  gaps_first : env.pass = .first → left.gaps = m.gaps
  frontier_le : m.frontier.position ≤ left.frontier.position
  /-- Mismatches in front of the start are not newly remembered. -/
  memo_old : ∀ key found, key.offset < m.offset → left.memo.find? key = some found →
    m.memo.find? key = some found

variable {env : Env V} {m left : Machine V}

/-- A valid machine is in its own frame. -/
theorem Frame.refl (h : m.Valid env) : Frame env m m where
  valid := h
  offset_le := Nat.le_refl _
  tracks := .refl _
  callers := .refl _
  nodes := List.suffix_refl _
  suppressed := rfl
  depth := rfl
  probes := rfl
  rule? := rfl
  scopes := rfl
  committed := rfl
  mayInsert := rfl
  gaps := List.suffix_refl _
  gaps_first := fun _ => rfl
  frontier_le := Nat.le_refl _
  memo_old := fun _ _ _ hfound => hfound

/-- A stretch behind another. -/
theorem Frame.trans {a b c : Machine V} (hab : Frame env a b) (hbc : Frame env b c) :
    Frame env a c where
  valid := hbc.valid
  offset_le := Nat.le_trans hab.offset_le hbc.offset_le
  tracks := hab.tracks.trans hbc.tracks
  callers := hab.callers.trans hbc.callers
  nodes := hab.nodes.trans hbc.nodes
  suppressed := hbc.suppressed.trans hab.suppressed
  depth := hbc.depth.trans hab.depth
  probes := hbc.probes.trans hab.probes
  rule? := hbc.rule?.trans hab.rule?
  scopes := hbc.scopes.trans hab.scopes
  committed := hbc.committed.trans hab.committed
  mayInsert := hbc.mayInsert.trans hab.mayInsert
  gaps := hab.gaps.trans hbc.gaps
  gaps_first := fun hpass => (hbc.gaps_first hpass).trans (hab.gaps_first hpass)
  frontier_le := Nat.le_trans hab.frontier_le hbc.frontier_le
  memo_old := fun key found hkey hfound =>
    hab.memo_old key found hkey
      (hbc.memo_old key found (Nat.lt_of_lt_of_le hkey hab.offset_le) hfound)

/-! ## What is noted -/

/-- Nothing but the frontier changes when a failure is noted. -/
theorem recordFailure_eq (env : Env V) (m : Machine V) (offset : Nat) (expected : Expected V) :
    m.recordFailure env offset expected =
      { m with frontier := (m.recordFailure env offset expected).frontier } := by
  unfold recordFailure
  split <;> rfl

/-- Recording a rule or label changes the frontier only. -/
theorem recordNamed_eq (env : Env V) (m : Machine V) (start : Nat) (before : Frontier V)
    (expected : Expected V) :
    m.recordNamed env start before expected =
      { m with frontier := (m.recordNamed env start before expected).frontier } := by
  unfold recordNamed
  split <;> rfl

/-- Nothing but the memo changes when a mismatch is remembered. -/
theorem remember_eq (env : Env V) (key? : Option MemoKey) (wouldInsert : Bool)
    (m left : Machine V) :
    Eval.remember env key? wouldInsert m left =
      { left with memo := (Eval.remember env key? wouldInsert m left).memo } := by
  unfold Eval.remember
  split
  next => rfl
  next => split <;> rfl

/-! ## Opening and closing -/

/-- The commitment plays no part in the rest of the frame. -/
theorem Frame.recommit {before : Bool} (h : Frame env { m with committed := before } left)
    (after : Bool) :
    Frame env { m with committed := after } { left with committed := after } :=
  { h with
    valid := ⟨h.valid.within, h.valid.vars⟩
    committed := rfl }

/-- Setting a commitment for a stretch and giving the old one back. -/
theorem Frame.keepCommitment {inner : Bool} (h : Frame env { m with committed := inner } left) :
    Frame env m { left with committed := m.committed } :=
  h.recommit m.committed

/-- A frame without regard to the commitment. -/
theorem Frame.upToCommitment (h : Frame env m left) :
    Frame env m { left with committed := m.committed } :=
  { h with
    valid := ⟨h.valid.within, h.valid.vars⟩
    committed := rfl }

/-- Counts and events are not part of the frame. -/
theorem Frame.observe (h : Frame env m left) (stats : Stats) (events : List Event) :
    Frame env m { left with stats := stats, events := events } :=
  { h with valid := ⟨h.valid.within, h.valid.vars⟩ }

/-- Nor is the note of a refused repair. -/
theorem Frame.note (h : Frame env m left) (wouldInsert : Bool) :
    Frame env m { left with wouldInsert := wouldInsert } :=
  { h with valid := ⟨h.valid.within, h.valid.vars⟩ }

/-- Going back to the reading head and the nodes of the start. -/
theorem Frame.rewind (hm : m.Valid env) (h : Frame env m left) :
    Frame env m { left with cursor := m.cursor, nodes := m.nodes } :=
  { h with
    valid := ⟨hm.within, h.valid.vars⟩
    offset_le := Nat.le_refl _
    nodes := List.suffix_refl _ }

/-- The frontier may move on. -/
theorem Frame.refrontier (h : Frame env m left) {frontier : Frontier V}
    (hle : left.frontier.position ≤ frontier.position) :
    Frame env m { left with frontier := frontier } :=
  { h with
    valid := ⟨h.valid.within, h.valid.vars⟩
    frontier_le := Nat.le_trans h.frontier_le hle }

/-- The frontier does not belong to the frame. -/
theorem Frame.recordFailure (h : Frame env m left) (offset : Nat) (expected : Expected V) :
    Frame env m (left.recordFailure env offset expected) := by
  unfold Machine.recordFailure
  split
  next =>
      refine h.refrontier ?_
      rw [Frontier.position_record]
      exact Nat.le_max_left _ _
  next => exact h

/-- So it is for rules and labels that are recorded. -/
theorem Frame.recordNamed (h : Frame env m left) (start : Nat) (before : Frontier V)
    (expected : Expected V) : Frame env m (left.recordNamed env start before expected) := by
  unfold Machine.recordNamed
  split
  next => exact h.refrontier (Frontier.le_position_recordNamed _ _ _ _)
  next => exact h

/-- A round of a choice begins with repairs switched on. -/
theorem mayInsert_of_takesTwoRounds (h : Eval.takesTwoRounds env m = true) :
    m.mayInsert = true := by
  simp only [Eval.takesTwoRounds, Bool.and_eq_true] at h
  exact h.2

/-- Closing a round, whatever becomes of its changes of the stack. -/
theorem Frame.closeRound (hround : Eval.takesTwoRounds env m = true)
    (h : Frame env (Eval.openRound m) left) {stack : Stack V} (htracks : m.stack.Tracks stack) :
    Frame env m { Eval.closeRound m left with stack := stack } :=
  { h with
    valid := ⟨h.valid.within, h.valid.vars⟩
    tracks := htracks
    mayInsert := (mayInsert_of_takesTwoRounds hround).symm }

/-- A round that is kept hands its changes on to the probe around it. -/
theorem Frame.keepRound (hround : Eval.takesTwoRounds env m = true)
    (h : Frame env (Eval.openRound m) left) : Frame env m (Eval.keepRound m left) :=
  h.closeRound hround h.tracks.commit

/-- A round that is taken back leaves the values as they were. -/
theorem Frame.undoRound (hround : Eval.takesTwoRounds env m = true)
    (h : Frame env (Eval.openRound m) left) : Frame env m (Eval.undoRound m left) := by
  have hstack : left.stack.rollback = m.stack := h.tracks.rollback_eq
  exact h.closeRound hround (hstack ▸ .refl _)

/-- Closing a lookahead. -/
theorem Frame.closeProbe (hm : m.Valid env) (h : Frame env (Eval.openProbe m) left) :
    Frame env m (Eval.closeProbe m left) :=
  { h with
    valid := ⟨hm.within, h.valid.vars⟩
    offset_le := Nat.le_refl _
    tracks := by
      have hstack : left.stack.rollback = m.stack := h.tracks.rollback_eq
      exact hstack ▸ .refl _
    nodes := List.suffix_refl _
    probes := by
      have hprobes : left.probes = m.probes + 1 := h.probes
      simp [Eval.closeProbe, hprobes]
    committed := rfl }

/-- Closing a label, with nodes put on those from before. -/
theorem Frame.closeScope {scope : Expected V × Nat} {nodes : List Tree}
    (h : Frame env { m with nodes := [], scopes := scope :: m.scopes } left)
    (hnodes : m.nodes <:+ nodes) :
    Frame env m { left with scopes := left.scopes.tail, nodes := nodes } :=
  { h with
    valid := ⟨h.valid.within, h.valid.vars⟩
    nodes := hnodes
    scopes := by
      have hscopes : left.scopes = scope :: m.scopes := h.scopes
      simp [hscopes] }

/-- Closing a rule invocation, with nodes put on those from before. -/
theorem Frame.leaveRule {id : RuleId} {rule : Rule V} {nodes : List Tree} (hm : m.Valid env)
    (h : Frame env (Eval.enterRule id rule m) left) (hnodes : m.nodes <:+ nodes) :
    Frame env m { Eval.leaveRule rule m left with nodes := nodes } := by
  have hvars : left.vars.leave = m.vars := h.callers.leave_eq
  have hsuppressed : left.suppressed = (Eval.enterRule id rule m).suppressed := h.suppressed
  have hdepth : left.depth = m.depth + 1 := h.depth
  have hscopes : left.scopes = (.rule id, m.offset) :: m.scopes := h.scopes
  exact { h with
    valid := ⟨h.valid.within, by simpa [Eval.leaveRule, hvars] using hm.vars⟩
    callers := by simpa [Eval.leaveRule, hvars] using Locals.SameCallers.refl m.vars
    nodes := hnodes
    suppressed := by
      simp only [Eval.leaveRule, hsuppressed, Eval.enterRule]
      split <;> rfl
    depth := by simp [Eval.leaveRule, hdepth]
    rule? := rfl
    scopes := by simp [Eval.leaveRule, hscopes] }

/-- One node more, or none. -/
theorem suffix_addNode (m outer : Machine V) (label : String) (rule? : Option RuleId) :
    outer.nodes <:+ (m.addNode outer label rule?).nodes := by
  unfold addNode
  dsimp only
  split
  next => exact List.suffix_cons _ _
  next => exact List.suffix_refl _

/-- What is remembered under a key at the start is no mismatch in front of it. -/
theorem Frame.remember (h : Frame env m left) {key? : Option MemoKey}
    (hkey : ∀ key ∈ key?, key.offset = m.offset) (wouldInsert : Bool) :
    Frame env m (Eval.remember env key? wouldInsert m left) := by
  unfold Eval.remember
  split
  next => exact h
  next key =>
      split
      next =>
          refine { h with
            valid := ⟨h.valid.within, h.valid.vars⟩
            memo_old := fun other found hother hfound => ?_ }
          refine h.memo_old other found hother (Memo.eq_of_find?_insert ?_ hfound)
          rintro rfl
          exact absurd (hkey other rfl) (Nat.ne_of_lt hother)
      next => exact h

end Machine

end Peg
