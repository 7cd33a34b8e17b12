import Peg.Proofs.Grammar.Reach
import Peg.Proofs.Parse.FrontierSum
import Peg.Proofs.Parse.Simulation

/-!
# What decides how a rule without actions is matched

A rule that can get to no action neither looks at the value stack nor at variables.
How it is matched depends on the place only: the reading head and, in a repairing
pass, which repairs are possible.  So two invocations of it at one place do alike,
whatever else differs between the two machines, and what they add to the frontier is
the same.

Main results:

- `Machine.SamePlace`: two machines are at the same place.
- `Machine.Quiet`: what a stretch without actions does to a machine.
- `Eval.follows_invoke_place`: a rule without actions does alike at the same place.
-/

namespace Peg

variable {V : Type}

theorem Pass.isRepair_eq_false_iff {pass : Pass} : pass.isRepair = false ↔ pass = .first := by
  cases pass <;> simp [isRepair]

namespace Machine

/-- Two machines are at the same place; which repairs are possible matters only in a
pass that makes repairs. -/
structure SamePlace (env : Env V) (m n : Machine V) : Prop where
  cursor_eq : m.cursor = n.cursor
  committed_eq : env.pass.isRepair = true → m.committed = n.committed
  mayInsert_eq : env.pass.isRepair = true → m.mayInsert = n.mayInsert
  probing_eq : env.pass.isRepair = true → (m.probes != 0) = (n.probes != 0)
  inserted_eq : env.pass.isRepair = true → m.inserted = n.inserted

/-- A stretch without actions: what it added to the frontier, and whether a repair was
refused in it. -/
structure Quiet (env : Env V) (added : Frontier V) (refused : Bool) (m l : Machine V) :
    Prop where
  stack_eq : l.stack = m.stack
  vars_eq : l.vars = m.vars
  probes_eq : l.probes = m.probes
  frontier_eq : l.frontier = if m.recording env then m.frontier ++ added else m.frontier
  wouldInsert_eq : l.wouldInsert = (m.wouldInsert || refused)

variable {env : Env V} {m n l k : Machine V} {added added' : Frontier V} {refused refused' : Bool}

/-- A stretch in which nothing happens adds nothing. -/
theorem Quiet.refl (m : Machine V) : Quiet env .empty false m m where
  stack_eq := rfl
  vars_eq := rfl
  probes_eq := rfl
  frontier_eq := by rw [Frontier.append_empty, ite_self]
  wouldInsert_eq := by rw [Bool.or_false]

/-- Whether failures are recorded does not change in a stretch without actions. -/
theorem Quiet.recording_eq (h : Quiet env added refused m l) :
    l.recording env = m.recording env := by
  rw [recording, recording, h.probes_eq]

/-- A stretch behind another: what both added is put together, and a refused repair of either
counts. -/
theorem Quiet.trans (h : Quiet env added refused m l) (hlast : Quiet env added' refused' l k) :
    Quiet env (added ++ added') (refused || refused') m k where
  stack_eq := hlast.stack_eq.trans h.stack_eq
  vars_eq := hlast.vars_eq.trans h.vars_eq
  probes_eq := hlast.probes_eq.trans h.probes_eq
  frontier_eq := by
    rw [hlast.frontier_eq, h.recording_eq, h.frontier_eq]
    split
    next => rw [Frontier.append_assoc]
    next => rfl
  wouldInsert_eq := by rw [hlast.wouldInsert_eq, h.wouldInsert_eq, Bool.or_assoc]

/-- A failure at the head is all that the stretch adds. -/
theorem Quiet.recordFailure (m : Machine V) (expected : Expected V) :
    Quiet env ⟨m.offset, [expected]⟩ false m (m.recordFailure env m.offset expected) := by
  unfold Machine.recordFailure
  split
  next hrecording =>
      refine ⟨rfl, rfl, rfl, ?_, (Bool.or_false _).symm⟩
      rw [if_pos hrecording, Frontier.record_eq_append]
  next hrecording =>
      refine ⟨rfl, rfl, rfl, ?_, (Bool.or_false _).symm⟩
      rw [if_neg hrecording]

/-- A failure is noted that started where the stretch did. -/
theorem Quiet.recordNamed (h : Quiet env added refused m l) (name : Expected V) :
    Quiet env (added.named m.offset name) refused m
      (l.recordNamed env m.offset m.frontier name) := by
  have hfrontier := h.frontier_eq
  unfold Machine.recordNamed
  rw [h.recording_eq]
  split
  next hrecording =>
      rw [if_pos hrecording] at hfrontier
      refine { h with frontier_eq := ?_ }
      rw [if_pos hrecording, hfrontier, Frontier.recordNamed_append]
  next hrecording =>
      rw [if_neg hrecording] at hfrontier
      refine { h with frontier_eq := ?_ }
      rw [if_neg hrecording, hfrontier]

/-- The frontier does not belong to the place. -/
theorem SamePlace.refrontier (h : m.SamePlace env n) (frontier frontier' : Frontier V) :
    SamePlace env { m with frontier := frontier } { n with frontier := frontier' } :=
  ⟨h.cursor_eq, h.committed_eq, h.mayInsert_eq, h.probing_eq, h.inserted_eq⟩

end Machine

namespace Eval

open Machine

/-- Two stretches without actions that end at the same place and do the same on the
way. -/
structure AlongPlace (env : Env V) (m n l l' : Machine V) : Prop where
  place : l.SamePlace env l'
  quiet : ∃ added refused, m.Quiet env added refused l ∧ n.Quiet env added refused l'

variable {env : Env V} {m n l l' k k' : Machine V}

/-- Runs may be compared where they are at the same place. -/
theorem start_place_iff : Stretches.Start (AlongPlace env) m n ↔ m.SamePlace env n :=
  ⟨fun h => h.place, fun h => ⟨h, .empty, false, .refl m, .refl n⟩⟩

theorem offset_eq_of_samePlace (h : m.SamePlace env n) : n.offset = m.offset :=
  congrArg Text.Cursor.offset h.cursor_eq.symm

/-- A rule or label that fails is noted in both runs. -/
theorem AlongPlace.noteFailure (h : AlongPlace env m n l l') (hplace : m.SamePlace env n)
    (name : Expected V) :
    AlongPlace env m n (Eval.noteFailure env m l name) (Eval.noteFailure env n l' name) := by
  rcases h with ⟨hlast, added, refused, hquiet, hquiet'⟩
  have hinner : m.Quiet env added refused { l with nodes := m.nodes } := { hquiet with }
  have hinner' : n.Quiet env added refused { l' with nodes := n.nodes } := { hquiet' with }
  refine ⟨?_, added.named m.offset name, refused, hinner.recordNamed name, ?_⟩
  · unfold Eval.noteFailure
    rw [recordNamed_eq env { l with nodes := m.nodes },
      recordNamed_eq env { l' with nodes := n.nodes }]
    exact ⟨hlast.cursor_eq, hlast.committed_eq, hlast.mayInsert_eq, hlast.probing_eq,
      hlast.inserted_eq⟩
  · rw [← offset_eq_of_samePlace hplace]
    exact hinner'.recordNamed name

/-- At the same place a failed terminal is stood in for in both runs or in neither. -/
theorem missing_place (e : Expr V) (hplace : m.SamePlace env n) :
    Alike (AlongPlace env m n) (missing env e m) (missing env e n) := by
  have hoffset := offset_eq_of_samePlace hplace
  unfold missing
  split
  next hpass =>
      refine .mismatched ⟨?_, ⟨m.offset, [.terminal e]⟩, false, .recordFailure m _, ?_⟩
      · rw [recordFailure_eq env m, recordFailure_eq env n]
        exact hplace.refrontier _ _
      · rw [← hoffset]
        exact .recordFailure n _
  next errorOffset hpass =>
      have hrepair : env.pass.isRepair = true := by rw [hpass]; rfl
      have hstand : mayStandIn env errorOffset e n = mayStandIn env errorOffset e m := by
        have hprobing := hplace.probing_eq hrepair
        simp only [bne, Bool.not_eq_eq_eq_not, Bool.not_not] at hprobing
        simp only [mayStandIn, hprobing, hoffset, hplace.committed_eq hrepair,
          hplace.inserted_eq hrepair]
      rw [hstand, ← hplace.mayInsert_eq hrepair]
      split
      next =>
          split
          next =>
              refine .matched ⟨⟨hplace.cursor_eq, hplace.committed_eq, hplace.mayInsert_eq,
                hplace.probing_eq, ?_⟩, .empty, false, { Quiet.refl m with }, { Quiet.refl n with }⟩
              intro _
              rw [inserted_insert, inserted_insert, hplace.inserted_eq hrepair]
          next =>
              refine .mismatched ⟨⟨hplace.cursor_eq, hplace.committed_eq, fun _ => rfl,
                hplace.probing_eq, hplace.inserted_eq⟩, .empty, true, ?_, ?_⟩
              · exact { Quiet.refl m with wouldInsert_eq := (Bool.or_true _).symm }
              · exact { Quiet.refl n with wouldInsert_eq := (Bool.or_true _).symm }
      next => exact .mismatched (start_place_iff.2 hplace)

/-- A rolled back probe leaves nothing of what a stretch without actions did. -/
theorem quiet_closeProbe {added : Frontier V} {refused : Bool}
    (h : (openProbe m).Quiet env added refused l) :
    m.Quiet env .empty refused (closeProbe m l) where
  stack_eq := by
    have hstack : l.stack = m.stack.openProbe := h.stack_eq
    simp only [closeProbe, hstack, Stack.rollback_openProbe]
  vars_eq := h.vars_eq
  probes_eq := by
    have hprobes : l.probes = m.probes + 1 := h.probes_eq
    simp [closeProbe, hprobes]
  frontier_eq := by
    have hfrontier := h.frontier_eq
    have hprobing : (openProbe m).recording env = false := by simp [recording, openProbe]
    rw [hprobing] at hfrontier
    rw [Frontier.append_empty, ite_self]
    exact hfrontier
  wouldInsert_eq := h.wouldInsert_eq

/-- Closing a round of a choice without actions, whatever becomes of the changes of the
stack, of which there are none. -/
theorem quiet_closeRound {added : Frontier V} {refused : Bool} {stack : Stack V}
    (h : (openRound m).Quiet env added refused l) (hstack : stack = m.stack) :
    m.Quiet env added false { closeRound m l with stack := stack } where
  stack_eq := hstack
  vars_eq := h.vars_eq
  probes_eq := h.probes_eq
  frontier_eq := h.frontier_eq
  wouldInsert_eq := (Bool.or_false _).symm

/-- A round without actions may be closed in either way, since the stacks are as they were. -/
theorem alongPlace_closeRound {stack stack' : Stack V}
    (h : AlongPlace env (openRound m) (openRound n) l l')
    (hstack : l.stack = m.stack.openProbe → stack = m.stack)
    (hstack' : l'.stack = n.stack.openProbe → stack' = n.stack) :
    AlongPlace env m n { closeRound m l with stack := stack }
      { closeRound n l' with stack := stack' } := by
  rcases h with ⟨hlast, added, refused, hquiet, hquiet'⟩
  refine ⟨⟨hlast.cursor_eq, hlast.committed_eq, fun _ => rfl, hlast.probing_eq,
    hlast.inserted_eq⟩, added, false, ?_, ?_⟩
  · exact quiet_closeRound hquiet (hstack hquiet.stack_eq)
  · exact quiet_closeRound hquiet' (hstack' hquiet'.stack_eq)

/-- Stretches without actions may be compared by their places. -/
theorem simulates_place (env : Env V) :
    Simulates env env (fun _ => False) (AlongPlace env) where
  source_eq := rfl
  restart h := start_place_iff.2 h.place
  trans := by
    rintro m n l l' k k' ⟨-, added, refused, hm, hn⟩ ⟨hplace, added', refused', hl, hl'⟩
    exact ⟨hplace, added ++ added', refused || refused', hm.trans hl, hn.trans hl'⟩
  cursor_eq h := h.place.cursor_eq
  inserted_lt := by
    intro m n l l' hstart hleft hright hlast
    by_cases hrepair : env.pass.isRepair = true
    · rw [hstart.place.inserted_eq hrepair, hlast.place.inserted_eq hrepair]
    · have hfirst := Pass.isRepair_eq_false_iff.1 (eq_false_of_ne_true hrepair)
      simp [inserted, hleft.gaps_first hfirst, hright.gaps_first hfirst]
  rewind := by
    rintro m n l l' hstart ⟨hlast, added, refused, hm, hn⟩
    exact ⟨⟨hstart.place.cursor_eq, hlast.committed_eq, hlast.mayInsert_eq, hlast.probing_eq,
      hlast.inserted_eq⟩, added, refused, { hm with }, { hn with }⟩
  recommit := by
    rintro m₀ n₀ m n l l' before before' f hstart ⟨hlast, added, refused, hm, hn⟩ after after'
    refine ⟨⟨hlast.cursor_eq, fun hrepair => ?_, hlast.mayInsert_eq, hlast.probing_eq,
      hlast.inserted_eq⟩, added, refused, { hm with }, { hn with }⟩
    exact congrArg f (hstart.place.committed_eq hrepair)
  observe := by
    rintro m n l l' stats stats' events events' ⟨hlast, added, refused, hm, hn⟩
    exact ⟨⟨hlast.cursor_eq, hlast.committed_eq, hlast.mayInsert_eq, hlast.probing_eq,
      hlast.inserted_eq⟩, added, refused, { hm with }, { hn with }⟩
  consume := by
    intro m n cursor _ _ hstart
    have hplace := hstart.place
    exact ⟨⟨rfl, hplace.committed_eq, hplace.mayInsert_eq, hplace.probing_eq,
      hplace.inserted_eq⟩, .empty, false, { Quiet.refl m with }, { Quiet.refl n with }⟩
  missing e _ _ hstart := missing_place e hstart.place
  runAction _ _ hallows := hallows.elim
  rounds_eq := by
    intro m n hstart
    unfold takesTwoRounds
    by_cases hrepair : env.pass.isRepair = true
    · have hprobing := hstart.place.probing_eq hrepair
      simp only [bne, Bool.not_eq_eq_eq_not, Bool.not_not] at hprobing
      rw [hprobing, hstart.place.mayInsert_eq hrepair]
    · simp [hrepair]
  openRound := by
    intro m n _ hstart
    have hplace := hstart.place
    exact start_place_iff.2 ⟨hplace.cursor_eq, hplace.committed_eq, fun _ => rfl,
      hplace.probing_eq, hplace.inserted_eq⟩
  wouldInsert_eq := by
    rintro m n l l' ⟨-, added, refused, hm, hn⟩
    rw [hm.wouldInsert_eq, hn.wouldInsert_eq]
    rfl
  keepRound := by
    intro m n l l' _ _ hlast
    refine alongPlace_closeRound hlast (fun hstack => ?_) fun hstack => ?_
    · simp only [closeRound, hstack, Stack.commit_openProbe]
    · simp only [closeRound, hstack, Stack.commit_openProbe]
  undoRound := by
    intro m n l l' _ _ hlast
    refine alongPlace_closeRound hlast (fun hstack => ?_) fun hstack => ?_
    · simp only [closeRound, hstack, Stack.rollback_openProbe]
    · simp only [closeRound, hstack, Stack.rollback_openProbe]
  openProbe := by
    intro m n hstart
    have hplace := hstart.place
    exact start_place_iff.2 ⟨hplace.cursor_eq, fun _ => rfl, hplace.mayInsert_eq,
      fun _ => by simp [openProbe], hplace.inserted_eq⟩
  closeProbe := by
    rintro m n l l' hstart hleft hright ⟨hlast, added, refused, hm, hn⟩
    have hplace := hstart.place
    have hquiet := quiet_closeProbe hm
    have hquiet' := quiet_closeProbe hn
    refine ⟨⟨hplace.cursor_eq, hplace.committed_eq, hlast.mayInsert_eq, fun hrepair => ?_,
      hlast.inserted_eq⟩, .empty, refused, hquiet, hquiet'⟩
    rw [hquiet.probes_eq, hquiet'.probes_eq, hplace.probing_eq hrepair]
  openLabel := by
    intro m n name hstart
    have hplace := hstart.place
    exact start_place_iff.2 ⟨hplace.cursor_eq, hplace.committed_eq, hplace.mayInsert_eq,
      hplace.probing_eq, hplace.inserted_eq⟩
  closeLabel := by
    rintro m n l l' name hstart ⟨hlast, added, refused, hm, hn⟩
    exact ⟨⟨hlast.cursor_eq, hlast.committed_eq, hlast.mayInsert_eq, hlast.probing_eq,
      hlast.inserted_eq⟩, added, refused, { hm with }, { hn with }⟩
  missLabel := by
    rintro m n l l' name hstart - - ⟨hlast, added, refused, hm, hn⟩
    have hclose : AlongPlace env m n (closeLabel l) (closeLabel l') :=
      ⟨⟨hlast.cursor_eq, hlast.committed_eq, hlast.mayInsert_eq, hlast.probing_eq,
        hlast.inserted_eq⟩, added, refused, { hm with }, { hn with }⟩
    exact hclose.noteFailure hstart.place (.label name)

/-! ## Rules -/

/-- A rule without actions adds what its body does. -/
theorem quiet_leaveRule {added : Frontier V} {refused : Bool} {id : RuleId} {rule : Rule V}
    (h : (enterRule id rule m).Quiet env added refused l) :
    m.Quiet env added refused (leaveRule rule m l) where
  stack_eq := h.stack_eq
  vars_eq := by
    have hvars : l.vars = m.vars.enter := h.vars_eq
    simp only [leaveRule, hvars, Locals.leave_enter]
  probes_eq := h.probes_eq
  frontier_eq := h.frontier_eq
  wouldInsert_eq := by
    have hrefused : l.wouldInsert = (false || refused) := h.wouldInsert_eq
    simp only [leaveRule, hrefused, Bool.false_or]
    exact Bool.or_comm _ _

/-- A rule is left in both runs. -/
theorem alongPlace_leaveRule {id : RuleId} {rule : Rule V}
    (h : AlongPlace env (enterRule id rule m) (enterRule id rule n) l l') :
    AlongPlace env m n (leaveRule rule m l) (leaveRule rule n l') := by
  rcases h with ⟨hlast, added, refused, hm, hn⟩
  exact ⟨⟨hlast.cursor_eq, hlast.committed_eq, hlast.mayInsert_eq, hlast.probing_eq,
    hlast.inserted_eq⟩, added, refused, quiet_leaveRule hm, quiet_leaveRule hn⟩

/-- Entering a rule does not change the place. -/
theorem enterRule_place (id : RuleId) (rule : Rule V) (h : m.SamePlace env n) :
    (enterRule id rule m).SamePlace env (enterRule id rule n) :=
  ⟨h.cursor_eq, h.committed_eq, h.mayInsert_eq, h.probing_eq, h.inserted_eq⟩

variable {probing : Bool} {a b : Eval V}

/-- Runs at the same place may be compared inside of a rule. -/
theorem ready_enterRule_place (id : RuleId) (rule : Rule V)
    (hready : Ready env env (AlongPlace env) probing m n) :
    Ready env env (AlongPlace env) probing (enterRule id rule m) (enterRule id rule n) where
  left := ⟨hready.left.within, m.vars.valid_enter⟩
  right := ⟨hready.right.within, n.vars.valid_enter⟩
  probing_eq := hready.probing_eq
  start := start_place_iff.2 (enterRule_place id rule hready.start.place)

/-- A rule does alike at the same place if its body does. -/
theorem alike_body_place (id : RuleId) (rule : Rule V)
    (h : Follows env env (AlongPlace env) probing a b)
    (hready : Ready env env (AlongPlace env) probing m n) :
    Alike (AlongPlace env m n) (body env id rule none a m) (body env id rule none b n) := by
  have halike := h.alike _ _ (ready_enterRule_place id rule hready)
  unfold body
  generalize a (enterRule id rule m) = outcome at halike ⊢
  generalize b (enterRule id rule n) = outcome' at halike ⊢
  cases halike with
  | matched halong =>
      rcases alongPlace_leaveRule halong with ⟨hlast, added, refused, hm, hn⟩
      refine .matched ?_
      rw [contribute_eq id rule m, contribute_eq id rule n]
      exact ⟨⟨hlast.cursor_eq, hlast.committed_eq, hlast.mayInsert_eq, hlast.probing_eq,
        hlast.inserted_eq⟩, added, refused, { hm with }, { hn with }⟩
  | mismatched halong =>
      rcases (alongPlace_leaveRule halong).noteFailure hready.start.place (.rule id)
        with ⟨hlast, added, refused, hm, hn⟩
      exact .mismatched ⟨⟨hlast.cursor_eq, hlast.committed_eq, hlast.mayInsert_eq,
        hlast.probing_eq, hlast.inserted_eq⟩, added, refused, { hm with }, { hn with }⟩
  | aborted error l l' => exact .aborted error _ _
  | limited outcome limit position l' => exact .limited _ limit position _

/-- The body of a rule without actions does alike if the rules without actions do. -/
theorem follows_body_place {id : RuleId} {definition : Rule V}
    (hfree : env.grammar.ActionFree id) (hdefinition : env.grammar.rule? id = some definition)
    {call₁ call₂ : RuleId → Eval V}
    (hcall : ∀ inside next, env.grammar.ActionFree next →
      Follows env env (AlongPlace env) inside (call₁ next) (call₂ next)) :
    Follows env env (AlongPlace env) probing (expr env call₁ definition.body)
      (expr env call₂ definition.body) := by
  refine (simulates_place env).follows_expr definition.body ?_ ?_
  · exact fun action hmem => hfree.not_mem hdefinition action hmem
  · intro inside next hmentions
    exact hcall inside next (hfree.mention hdefinition hmentions.mem_subterms)

/-- A rule without actions does alike at the same place, if the second invocation may
not go deeper than the first one. -/
theorem follows_invoke_place (hmemo : env.settings.memoization = false) {id : RuleId}
    (hfree : env.grammar.ActionFree id) {allowance allowance' : Nat}
    (hle : allowance' ≤ allowance) :
    Follows env env (AlongPlace env) probing (invoke env allowance id)
      (invoke env allowance' id) := by
  induction allowance generalizing allowance' id probing with
  | zero =>
      obtain rfl := Nat.le_zero.1 hle
      refine ⟨framed_invoke 0 id, framed_invoke 0 id, ?_⟩
      intro m n hready
      unfold invoke
      split
      next => exact .aborted _ _ _
      next => exact .limited _ _ _ _
  | succ allowance ih =>
      refine ⟨framed_invoke _ id, framed_invoke _ id, ?_⟩
      intro m n hready
      unfold invoke
      split
      next => exact .aborted _ _ _
      next definition hdefinition =>
          cases allowance' with
          | zero => exact .limited _ _ _ _
          | succ allowance' =>
              have hbody : Follows env env (AlongPlace env) probing
                  (expr env (invoke env allowance) definition.body)
                  (expr env (invoke env allowance') definition.body) :=
                follows_body_place hfree hdefinition fun inside next hnext =>
                  ih hnext (Nat.le_of_succ_le_succ hle)
              simp only [Eval.rule, hmemo, Bool.false_and]
              exact alike_body_place id definition hbody hready

end Eval

end Peg
