import Peg.Proofs.Memo.Outcomes
import Peg.Proofs.Parse.Growth

/-!
# Where repairs are made

Repairs stand in for terminals that are missing behind the place where the first pass
failed, and only once the surroundings of the terminal have consumed something.  The
surroundings of an option and of an iteration begin with it, so neither is begun with a
repair; and nothing is repaired in a lookahead.

The invariant goes with the task: in a sequence under no commitment a repair is made
only behind the start of the sequence, in a repetition only behind the iteration at
hand, and elsewhere, unless committed, only behind the reading head.

Main results:

- `Derives.placed`: where the repairs of an evaluation may be.
- `runPass_repairs_placed`: where the repairs of a repairing pass are, and how many.
-/

namespace Peg

open Text

variable {V : Type}

/-- A repair is behind the place where the first pass failed and behind the start of
every option and iteration around it, and not in a lookahead. -/
structure StandIn.Placed (env : Env V) (errorOffset : Nat) (standIn : StandIn) : Prop where
  position_eq : standIn.gap.position = env.source.position standIn.offset
  errorOffset_le : errorOffset ≤ standIn.offset
  attempt_lt : ∀ start, .attempt start ∈ standIn.within → start < standIn.offset
  not_lookahead : .lookahead ∉ standIn.within

/-- A sequence has begun in front of the reading head or at it. -/
def Task.Begun (m : Machine V) : Task V → Prop
  | .items start .. => start ≤ m.offset
  | _ => True

/-- Where a task that is begun at a machine may make repairs. -/
def Task.MayRepair (m : Machine V) (offset : Nat) : Task V → Prop
  | .items start inherited .. => m.offset ≤ offset ∧ (inherited = false → start < offset)
  | .many _ => m.offset < offset
  | .expr _ | .alternatives _ | .call _ =>
    m.offset ≤ offset ∧ (m.committed = false → m.offset < offset)

variable {env : Env V} {a errorOffset : Nat} {task : Task V} {m left : Machine V}
variable {o : Verdict × Machine V} {made : List StandIn}

/-- What is known of a repair that a task makes. -/
structure StandIn.MadeBy (env : Env V) (errorOffset : Nat) (task : Task V) (m : Machine V)
    (standIn : StandIn) : Prop where
  probes : m.probes = 0
  placed : standIn.Placed env errorOffset
  mayRepair : task.MayRepair m standIn.offset

/-- A repair stays well placed inside of an option or an iteration that began in front of it. -/
theorem StandIn.Placed.inside {standIn : StandIn} (h : standIn.Placed env errorOffset) {start : Nat}
    (hlt : start < standIn.offset) : (standIn.inside (.attempt start)).Placed env errorOffset where
  position_eq := h.position_eq
  errorOffset_le := h.errorOffset_le
  attempt_lt other hmem := by
    rcases List.mem_cons.1 hmem with heq | hmem
    · cases heq
      exact hlt
    · exact h.attempt_lt other hmem
  not_lookahead hmem := by
    rcases List.mem_cons.1 hmem with heq | hmem
    · cases heq
    · exact h.not_lookahead hmem

/-- Going back on a repair does not move it. -/
theorem StandIn.Placed.drop {standIn : StandIn} (h : standIn.Placed env errorOffset) :
    standIn.drop.Placed env errorOffset :=
  ⟨h.position_eq, h.errorOffset_le, h.attempt_lt, h.not_lookahead⟩

/-- A terminal is stood in for where it is missing. -/
theorem Eval.mem_standIns {e : Expr V} {standIn : StandIn}
    (hpass : env.pass = .repair errorOffset) (h : standIn ∈ standIns env e m) :
    mayStandIn env errorOffset e m = true ∧ standIn.offset = m.offset ∧ standIn.within = [] ∧
      standIn.gap.position = env.source.position standIn.offset := by
  unfold standIns at h
  rw [hpass] at h
  split at h
  next hconsume heq =>
      cases heq
      split at h
      next hstand =>
          rw [List.mem_singleton] at h
          subst h
          rw [Bool.and_eq_true] at hstand
          exact ⟨hstand.1, rfl, rfl, rfl⟩
      next => cases h
  next => cases h

/-- A terminal is stood in for only where and while that is allowed. -/
theorem Eval.madeBy_standIns {e : Expr V} {standIn : StandIn}
    (hpass : env.pass = .repair errorOffset) (h : standIn ∈ standIns env e m) :
    standIn.MadeBy env errorOffset (.expr e) m := by
  rcases mem_standIns hpass h with ⟨hstand, hoffset, hwithin, hposition⟩
  simp only [mayStandIn, Bool.and_eq_true, beq_iff_eq, decide_eq_true_eq] at hstand
  rcases hstand with ⟨⟨⟨⟨hprobes, -⟩, hle⟩, hcommitted⟩, -⟩
  refine ⟨hprobes, ⟨hposition, hoffset ▸ hle, ?_, ?_⟩, ?_, fun hnot => ?_⟩
  · simp [hwithin]
  · simp [hwithin]
  · exact Nat.le_of_eq hoffset.symm
  · cases hcommitted.symm.trans hnot

/-! ## Along a derivation -/

section Steps

variable {rest task : Task V} {m left : Machine V}

/-- Repairs made by a part of a task are made by the task. -/
theorem madeBy_part (h : ∀ standIn ∈ made, standIn.MadeBy env errorOffset rest left)
    (hprobes : left.probes = m.probes)
    (hmay : ∀ offset, rest.MayRepair left offset → task.MayRepair m offset) :
    ∀ standIn ∈ made, standIn.MadeBy env errorOffset task m := by
  intro standIn hmem
  have hmade := h standIn hmem
  exact ⟨hprobes.symm.trans hmade.probes, hmade.placed, hmay _ hmade.mayRepair⟩

/-- Repairs of two stretches of a task belong to the task. -/
theorem madeBy_append {later : List StandIn}
    (h : ∀ standIn ∈ made, standIn.MadeBy env errorOffset task m)
    (hlater : ∀ standIn ∈ later, standIn.MadeBy env errorOffset task m) :
    ∀ standIn ∈ made ++ later, standIn.MadeBy env errorOffset task m :=
  fun standIn hmem => (List.mem_append.1 hmem).elim (h standIn) (hlater standIn)

/-- Repairs that are gone back on still belong to their task. -/
theorem madeBy_settle {verdict : Verdict}
    (h : ∀ standIn ∈ made, standIn.MadeBy env errorOffset task m) :
    ∀ standIn ∈ verdict.settle made, standIn.MadeBy env errorOffset task m := by
  unfold Verdict.settle
  split
  next =>
      intro standIn hmem
      rcases List.mem_map.1 hmem with ⟨whole, hwhole, rfl⟩
      have hmade := h whole hwhole
      exact ⟨hmade.probes, hmade.placed.drop, hmade.mayRepair⟩
  next => exact h

/-- An option or an iteration is uncommitted when it begins. -/
theorem madeBy_attempt {body : Expr V}
    (h : ∀ standIn ∈ made,
      standIn.MadeBy env errorOffset (.expr body) { m with committed := false })
    (hmay : ∀ offset, m.offset < offset → task.MayRepair m offset) :
    ∀ standIn ∈ made.map (StandIn.inside (.attempt m.offset)),
      standIn.MadeBy env errorOffset task m := by
  intro standIn hmem
  rcases List.mem_map.1 hmem with ⟨inner, hinner, rfl⟩
  have hmade := h inner hinner
  have hlt : m.offset < inner.offset := hmade.mayRepair.2 rfl
  exact ⟨hmade.probes, hmade.placed.inside hlt, hmay _ hlt⟩

/-- Nothing is repaired in a lookahead. -/
theorem madeBy_probe {body : Expr V}
    (h : ∀ standIn ∈ made, standIn.MadeBy env errorOffset (.expr body) (Eval.openProbe m)) :
    ∀ standIn ∈ made.map StandIn.probed, standIn.MadeBy env errorOffset task m := by
  intro standIn hmem
  rcases List.mem_map.1 hmem with ⟨inner, hinner, rfl⟩
  exact absurd (h inner hinner).probes (Nat.succ_ne_zero m.probes)

/-- A part of a sequence is committed if the sequence was, or has consumed something. -/
theorem mayRepair_items {start offset : Nat} {inherited : Bool} (hbegun : start ≤ m.offset)
    (h : m.offset ≤ offset ∧
      ((inherited || decide (start < m.offset)) = false → m.offset < offset)) :
    m.offset ≤ offset ∧ (inherited = false → start < offset) := by
  refine ⟨h.1, fun hnot => ?_⟩
  by_cases hconsumed : start < m.offset
  · exact Nat.lt_of_lt_of_le hconsumed h.1
  · exact Nat.lt_of_le_of_lt hbegun (h.2 (by simp [hnot, hconsumed]))

/-- What may be repaired behind a stretch may be repaired from its start. -/
theorem mayRepair_of_frame (hframe : m.Frame env left) {offset : Nat}
    (h : left.offset ≤ offset ∧ (left.committed = false → left.offset < offset)) :
    m.offset ≤ offset ∧ (m.committed = false → m.offset < offset) := by
  have hle := hframe.offset_le
  have hcommitted := hframe.committed
  exact ⟨Nat.le_trans hle h.1, fun hnot => Nat.lt_of_le_of_lt hle (h.2 (hcommitted.trans hnot))⟩

end Steps

/-- Where the repairs of an evaluation may be. -/
theorem Derives.placed (hpass : env.pass = .repair errorOffset)
    (h : Derives env a task m o made) (hm : m.Valid env) (hbegun : task.Begun m) :
    ∀ standIn ∈ made, standIn.MadeBy env errorOffset task m := by
  induction h with
  | terminal hterminal => exact fun standIn hmem => Eval.madeBy_standIns hpass hmem
  | action | done | act_last | no_alternative | unknown | limit | hit => nofun
  | seq hitems ih =>
      exact madeBy_settle (madeBy_part (ih hm (Nat.le_refl _)) rfl fun _ hmay => hmay)
  | @act_next a start inherited action items previous synthetic m left o made hact hrest ih =>
      have hframe : m.Frame env left := Eval.frame_runAction hm hact
      rcases Eval.exists_snd_runAction env action previous synthetic m
        with ⟨_, _, _, hleft⟩
      rw [hact] at hleft
      have hoffset : left.offset = m.offset := by rw [show left = _ from hleft]; rfl
      refine madeBy_part (ih hframe.valid ?_) hframe.probes ?_
      · exact Nat.le_trans hbegun (Nat.le_of_eq hoffset.symm)
      · exact fun offset hmay => ⟨hoffset ▸ hmay.1, hmay.2⟩
  | @part_next a start inherited item items previous synthetic m left o made later hitem hpart
      hrest ihpart ihrest =>
      have hframe : Machine.Frame env { m with committed := inherited || start < m.offset } left :=
        hpart.framed ⟨hm.within, hm.vars⟩
      have hle : m.offset ≤ left.offset := hframe.offset_le
      refine madeBy_append ?_ ?_
      · exact madeBy_part (ihpart ⟨hm.within, hm.vars⟩ trivial) rfl fun _ => mayRepair_items hbegun
      · exact madeBy_part (ihrest hframe.valid (Nat.le_trans hbegun hle)) hframe.probes
          fun _ hmay => ⟨Nat.le_trans hle hmay.1, hmay.2⟩
  | part_last hitem hpart hends ih =>
      exact madeBy_part (ih ⟨hm.within, hm.vars⟩ trivial) rfl fun _ => mayRepair_items hbegun
  | choice_once honce hround ih => exact madeBy_part (ih hm trivial) rfl fun _ hmay => hmay
  | choice_first htwo hround hends ih =>
      exact madeBy_part (ih ⟨hm.within, hm.vars⟩ trivial) rfl fun _ hmay => hmay
  | @choice_second a items m left o made later htwo hround hnoted hagain ihround ihagain =>
      have hfirst : (Eval.openRound m).Frame env left := hround.framed ⟨hm.within, hm.vars⟩
      have hundo : m.Frame env (Eval.undoRound m left) := hfirst.undoRound htwo
      refine madeBy_append ?_ ?_
      · exact madeBy_part (ihround ⟨hm.within, hm.vars⟩ trivial) rfl fun _ hmay => hmay
      · exact madeBy_part (ihagain hundo.valid trivial) hundo.probes fun _ =>
          mayRepair_of_frame hundo
  | @alternative_next a item items m left o made later hmore hfirst hrest ihfirst ihrest =>
      have hframe : m.Frame env left := hfirst.framed hm
      have hback : m.Frame env left.backtrack := hframe.observe _ _
      refine madeBy_append ?_ ?_
      · exact madeBy_part (ihfirst hm trivial) rfl fun _ hmay => hmay
      · exact madeBy_part (ihrest hback.valid trivial) hback.probes fun _ =>
          mayRepair_of_frame hback
  | alternative_last hends hfirst ih =>
      exact madeBy_part (ih hm trivial) rfl fun _ hmay => hmay
  | star hmany ih =>
      exact madeBy_part (ih hm trivial) rfl fun _ hlt => ⟨Nat.le_of_lt hlt, fun _ => hlt⟩
  | @many_next a body m left o made later hfirst hless hrest ihfirst ihrest =>
      have hframe : Machine.Frame env { m with committed := false } left :=
        hfirst.framed ⟨hm.within, hm.vars⟩
      refine madeBy_append ?_ ?_
      · exact madeBy_attempt (ihfirst ⟨hm.within, hm.vars⟩ trivial) fun _ hlt => hlt
      · exact madeBy_part (ihrest hframe.valid trivial) hframe.probes fun _ hlt =>
          Nat.lt_of_le_of_lt hframe.offset_le hlt
  | many_last hfirst hends ih =>
      exact madeBy_attempt (ih ⟨hm.within, hm.vars⟩ trivial) fun _ hlt => hlt
  | @plus_next a body m left o made later hfirst hless hrest ihfirst ihrest =>
      have hframe : m.Frame env left := hfirst.framed hm
      refine madeBy_append ?_ ?_
      · exact madeBy_part (ihfirst hm trivial) rfl fun _ hmay => hmay
      · refine madeBy_part (ihrest hframe.valid trivial) hframe.probes fun offset hlt => ?_
        have hlt : m.offset < offset := Nat.lt_of_le_of_lt hframe.offset_le hlt
        exact ⟨Nat.le_of_lt hlt, fun _ => hlt⟩
  | plus_last hfirst hends ih => exact madeBy_part (ih hm trivial) rfl fun _ hmay => hmay
  | optional hbody ih =>
      exact madeBy_attempt (ih ⟨hm.within, hm.vars⟩ trivial) fun _ hlt =>
        ⟨Nat.le_of_lt hlt, fun _ => hlt⟩
  | notAhead hbody ih | ahead hbody ih => exact madeBy_probe (ih ⟨hm.within, hm.vars⟩ trivial)
  | label hbody ih =>
      exact madeBy_part (ih ⟨hm.within, hm.vars⟩ trivial) rfl fun _ hmay => hmay
  | rule hcall ih => exact madeBy_part (ih hm trivial) rfl fun _ hmay => hmay
  | @body a id definition m o made hdefinition hknown hbody ih =>
      rw [Eval.countMiss_eq] at ih
      exact madeBy_part (ih ⟨hm.within, m.vars.valid_enter⟩ trivial) rfl fun _ hmay => hmay

/-! ## Passes -/

/-- A repairing pass makes no more repairs than are allowed.  Each of them is made at or
behind the offset that the first pass failed at, behind something that was consumed,
outside of lookahead, and behind the start of every option and of every iteration, but
for the first one of a repetition that needs one, in which it is made. -/
theorem runPass_repairs_placed (env : Env V) (errorOffset : Nat) (root : RuleId) :
    (∃ made, PassMakes { env with pass := .repair errorOffset } root made) ∧
      ∀ made, PassMakes { env with pass := .repair errorOffset } root made →
        (runPass { env with pass := .repair errorOffset } root).2.gaps.reverse =
            made.map StandIn.gap ∧
          made.length ≤ env.settings.maxRecoveredErrors ∧
          ∀ standIn ∈ made, standIn.Placed env errorOffset ∧ 0 < standIn.offset := by
  refine ⟨exists_passMakes _ root, fun made hmade => ⟨hmade.gaps_eq, ?_, fun standIn hmem => ?_⟩⟩
  · have hlength : (runPass { env with pass := .repair errorOffset } root).2.inserted =
        made.length := by
      rw [Machine.inserted, ← List.length_reverse, hmade.gaps_eq, List.length_map]
    rw [← hlength]
    rcases hmade.grows.allowed with hnone | hallowed
    · rw [Machine.inserted, hnone]
      exact Nat.zero_le _
    · exact hallowed
  · have hby := hmade.placed rfl (valid_passStart _) trivial standIn hmem
    exact ⟨⟨hby.placed.position_eq, hby.placed.errorOffset_le, hby.placed.attempt_lt,
      hby.placed.not_lookahead⟩, hby.mayRepair.2 rfl⟩

/-- A grammar of lists in which an element may be missing. -/
def bracketed : Grammar Nat where
  rules := #[
    ⟨"list", .seq [.char '[', .char 'a', .star (.seq [.char ',', .char 'a']), .char ']',
      .endOfInput], {}⟩]

/-- The one repair of a bracketed list, where the first pass failed. -/
theorem runPass_repairs_placed_bracketed :
    ∃ made, PassMakes ⟨bracketed, .plain ['[', 'a', ',', ',', 'a', ']'], {}, .repair 3⟩ ⟨0⟩ made ∧
      made.map StandIn.gap = [⟨⟨3, 0, 3⟩, "'a'"⟩] ∧
      ∀ standIn ∈ made,
        standIn.Placed ⟨bracketed, .plain ['[', 'a', ',', ',', 'a', ']'], {}, .first⟩ 3 ∧
          0 < standIn.offset := by
  have hgaps :
      (runPass ⟨bracketed, .plain ['[', 'a', ',', ',', 'a', ']'], {}, .repair 3⟩
        ⟨0⟩).2.gaps.reverse = [⟨⟨3, 0, 3⟩, "'a'"⟩] := by
    cbv
  rcases runPass_repairs_placed
    ⟨bracketed, .plain ['[', 'a', ',', ',', 'a', ']'], {}, .first⟩ 3 ⟨0⟩ with ⟨⟨made, hmade⟩, hall⟩
  rcases hall made hmade with ⟨heq, -, hplaced⟩
  exact ⟨made, hmade, heq.symm.trans hgaps, hplaced⟩

end Peg
