import Peg.Proofs.Memo.Transparency
import Peg.Proofs.Parse.Mirror

/-!
# Parses with repairs switched off

While repairs are switched off, a parse does the same whether a refused repair has been
noted before or not, and whichever probes of the stack are open: it does not ask.  It
notes what it refuses by itself.

Main results:

- `Eval.simulates_noted`: single steps do alike.
- `Eval.follows_invoke_noted`: so do rule invocations.
- `alike_openRound`: the first round of a choice ends like its alternatives do with
  repairs switched off.
-/

namespace Peg

open Text

variable {V : Type}

namespace Eval

open Machine

/-- Two machines differ in the journals of their stacks, in the note of a refused repair,
and in counts and events. -/
def SameButNoted (m n : Machine V) : Prop :=
  ∃ journals wouldInsert stats events,
    n = { m with
      stack := { m.stack with journals := journals }
      wouldInsert := wouldInsert
      stats := stats
      events := events }

/-- Repairs are switched off, and what was refused since has been noted on both sides. -/
structure AlongNoted (m n l l' : Machine V) : Prop where
  off : l.mayInsert = false
  same : SameButNoted l l'
  notes : ∃ refused, l.wouldInsert = (m.wouldInsert || refused) ∧
    l'.wouldInsert = (n.wouldInsert || refused)

variable {env : Env V} {m n l l' : Machine V} {probing : Bool}

/-- While repairs are switched off, runs that differ in a note may be compared. -/
theorem start_noted (hoff : m.mayInsert = false) (h : SameButNoted m n) : AlongNoted m n m n :=
  ⟨hoff, h, false, (Bool.or_false _).symm, (Bool.or_false _).symm⟩

/-- While repairs are switched off, a choice takes one round. -/
theorem takesTwoRounds_of_off (env : Env V) (hoff : m.mayInsert = false) :
    takesTwoRounds env m = false := by
  rw [takesTwoRounds, hoff, Bool.and_false]

/-! ## Single steps -/

/-- Failures are recorded in the same way. -/
theorem recordFailure_noted (hoff : m.mayInsert = false) (h : SameButNoted m n)
    (expected : Expected V) :
    AlongNoted m n (m.recordFailure env m.offset expected)
      (n.recordFailure env n.offset expected) := by
  rcases h with ⟨_, _, _, _, rfl⟩
  unfold recordFailure
  change AlongNoted _ _ (if m.recording env then _ else _) (if m.recording env then _ else _)
  split
  next => exact ⟨hoff, ⟨_, _, _, _, rfl⟩, false, (Bool.or_false _).symm, (Bool.or_false _).symm⟩
  next => exact start_noted hoff ⟨_, _, _, _, rfl⟩

/-- While repairs are switched off, a failed terminal is not stood in for. -/
theorem missing_noted (e : Expr V) (hoff : m.mayInsert = false) (h : SameButNoted m n) :
    Alike (AlongNoted m n) (missing env e m) (missing env e n) := by
  unfold missing
  split
  next hpass => exact .mismatched (recordFailure_noted hoff h (.terminal e))
  next errorOffset hpass =>
      rcases h with ⟨_, _, _, _, rfl⟩
      change Alike _ (if mayStandIn env errorOffset e m then if m.mayInsert then _ else _ else _)
        (if mayStandIn env errorOffset e m then if m.mayInsert then _ else _ else _)
      have hnot : ¬ m.mayInsert = true := Bool.eq_false_iff.1 hoff
      split
      next =>
          exact .mismatched
            ⟨hoff, ⟨_, _, _, _, rfl⟩, true, (Bool.or_true _).symm, (Bool.or_true _).symm⟩
      next => exact .mismatched (start_noted hoff ⟨_, _, _, _, rfl⟩)

/-- An action cannot see the note. -/
theorem runAction_noted (action : Action V) (span : Span) (synthetic : Bool)
    (hoff : m.mayInsert = false) (h : SameButNoted m n) :
    Alike (AlongNoted m n) (runAction env action span synthetic m)
      (runAction env action span synthetic n) := by
  rcases h with ⟨journals, _, _, _, rfl⟩
  unfold runAction
  dsimp only
  rcases Workspace.run_rejournal (action ⟨env.source.text, span, synthetic, env.pass.isRepair⟩)
    ⟨m.stack, m.vars⟩ journals with ⟨journals', hrun⟩
  rw [Workspace.rejournal] at hrun
  rw [hrun]
  generalize (action _).run ⟨m.stack, m.vars⟩ = result
  have hnotes (b : Bool) : b = (b || false) := (Bool.or_false b).symm
  rcases result with ⟨error | _ | _, space⟩
  · exact .aborted _ _ _
  · exact .mismatched ⟨hoff, ⟨_, _, _, _, rfl⟩, false, hnotes _, hnotes _⟩
  · exact .matched ⟨hoff, ⟨_, _, _, _, rfl⟩, false, hnotes _, hnotes _⟩

/-- A rule or a label is noted as failed in the same way. -/
theorem noteFailure_noted (hm : SameButNoted m n) (h : SameButNoted l l') (name : Expected V) :
    SameButNoted (noteFailure env m l name) (noteFailure env n l' name) := by
  rcases hm with ⟨_, _, _, _, rfl⟩
  rcases h with ⟨_, _, _, _, rfl⟩
  unfold noteFailure recordNamed
  change SameButNoted (if l.recording env then _ else _) (if l.recording env then _ else _)
  split
  next => exact ⟨_, _, _, _, rfl⟩
  next => exact ⟨_, _, _, _, rfl⟩

/-- Single steps do alike, as long as repairs are switched off. -/
theorem simulates_noted (env : Env V) : Simulates env env (fun _ => True) AlongNoted where
  source_eq := rfl
  restart h := start_noted h.off h.same
  trans h hlast := by
    rcases h.notes with ⟨refused, hl, hl'⟩
    rcases hlast.notes with ⟨refused', hk, hk'⟩
    exact ⟨hlast.off, hlast.same, refused || refused', by rw [hk, hl, Bool.or_assoc],
      by rw [hk', hl', Bool.or_assoc]⟩
  cursor_eq := by
    rintro m n ⟨-, ⟨_, _, _, _, rfl⟩, -⟩
    rfl
  inserted_lt := by
    rintro m n l l' ⟨-, ⟨_, _, _, _, rfl⟩, -⟩ - - ⟨-, ⟨_, _, _, _, rfl⟩, -⟩
    exact Iff.rfl
  rewind := by
    rintro m n l l' ⟨-, ⟨_, _, _, _, rfl⟩, -⟩ ⟨hoff, ⟨_, _, _, _, rfl⟩, hnotes⟩
    exact ⟨hoff, ⟨_, _, _, _, rfl⟩, hnotes⟩
  recommit := by
    rintro m₀ n₀ m n l l' before before' f ⟨-, ⟨_, _, _, _, rfl⟩, -⟩
      ⟨hoff, ⟨_, _, _, _, rfl⟩, hnotes⟩ after after'
    exact ⟨hoff, ⟨_, _, _, _, rfl⟩, hnotes⟩
  observe := by
    rintro m n l l' stats stats' events events' ⟨hoff, ⟨_, _, _, _, rfl⟩, hnotes⟩
    exact ⟨hoff, ⟨_, _, _, _, rfl⟩, hnotes⟩
  consume := by
    rintro m n cursor - - ⟨hoff, ⟨_, _, _, _, rfl⟩, hnotes⟩
    exact ⟨hoff, ⟨_, _, _, _, rfl⟩, hnotes⟩
  missing e _ _ h := missing_noted e h.off h.same
  runAction span synthetic _ h := runAction_noted _ span synthetic h.off h.same
  rounds_eq := by
    rintro m n ⟨-, ⟨_, _, _, _, rfl⟩, -⟩
    rfl
  openRound htwo h := by
    rw [takesTwoRounds_of_off env h.off] at htwo
    cases htwo
  wouldInsert_eq := by
    rintro m n l l' ⟨-, -, refused, hl, hl'⟩
    exact hl.trans hl'.symm
  keepRound htwo h _ := by
    rw [takesTwoRounds_of_off env h.off] at htwo
    cases htwo
  undoRound htwo h _ := by
    rw [takesTwoRounds_of_off env h.off] at htwo
    cases htwo
  openProbe := by
    rintro m n ⟨hoff, ⟨_, _, _, _, rfl⟩, hnotes⟩
    exact ⟨hoff, ⟨_, _, _, _, rfl⟩, hnotes⟩
  closeProbe := by
    rintro m n l l' ⟨-, ⟨_, _, _, _, rfl⟩, -⟩ hleft hright ⟨hoff, ⟨_, _, _, _, rfl⟩, hnotes⟩
    have hstack : l.stack.rollback = m.stack := hleft.tracks.rollback_eq
    have hstack' := hright.tracks.rollback_eq
    dsimp only at hstack'
    refine ⟨hoff, ?_, hnotes⟩
    rw [closeProbe, closeProbe, hstack, hstack']
    exact ⟨_, _, _, _, rfl⟩
  openLabel := by
    rintro m n name ⟨hoff, ⟨_, _, _, _, rfl⟩, hnotes⟩
    exact ⟨hoff, ⟨_, _, _, _, rfl⟩, hnotes⟩
  closeLabel := by
    rintro m n l l' name ⟨-, ⟨_, _, _, _, rfl⟩, -⟩ ⟨hoff, ⟨_, _, _, _, rfl⟩, hnotes⟩
    exact ⟨hoff, ⟨_, _, _, _, rfl⟩, hnotes⟩
  missLabel := by
    intro m n l l' name hstart hleft _ hlast
    have hclose : SameButNoted (closeLabel l) (closeLabel l') := by
      rcases hlast.same with ⟨_, _, _, _, rfl⟩
      exact ⟨_, _, _, _, rfl⟩
    have hnote : SameButNoted (noteFailure env m (closeLabel l) (.label name))
        (noteFailure env n (closeLabel l') (.label name)) :=
      noteFailure_noted hstart.same hclose (.label name)
    rw [noteFailure_eq env m, noteFailure_eq env n] at hnote ⊢
    exact ⟨hlast.off, hnote, hlast.notes⟩

/-! ## Rules -/

/-- What is changed on both sides alike, but not in switch and note. -/
theorem AlongNoted.replace {k k' : Machine V} (h : AlongNoted m n l l')
    (hrepairs : k.repairs = l.repairs) (hrepairs' : k'.repairs = l'.repairs)
    (hsame : SameButNoted k k') : AlongNoted m n k k' := by
  simp only [repairs, Prod.mk.injEq] at hrepairs hrepairs'
  refine ⟨hrepairs.1.trans h.off, hsame, ?_⟩
  rw [hrepairs.2.1, hrepairs'.2.1]
  exact h.notes

/-- A rule is left in both runs. -/
theorem leaveRule_noted {id : RuleId} (definition : Rule V) (hm : SameButNoted m n)
    (h : AlongNoted (enterRule id definition m) (enterRule id definition n) l l') :
    AlongNoted m n (leaveRule definition m l) (leaveRule definition n l') := by
  rcases h with ⟨hoff, hsame, refused, hl, hl'⟩
  refine ⟨hoff, ?_, refused, ?_, ?_⟩
  · rcases hm with ⟨_, _, _, _, rfl⟩
    rcases hsame with ⟨_, _, _, _, rfl⟩
    exact ⟨_, _, _, _, rfl⟩
  · simp [leaveRule, hl, enterRule, Bool.or_comm]
  · simp [leaveRule, hl', enterRule, Bool.or_comm]

/-- A rule adds the same nodes in both runs. -/
theorem contribute_noted (id : RuleId) (definition : Rule V) (hm : SameButNoted m n)
    (h : SameButNoted l l') :
    SameButNoted (contribute id definition m l) (contribute id definition n l') := by
  rcases hm with ⟨_, _, _, _, rfl⟩
  rcases h with ⟨_, _, _, _, rfl⟩
  unfold contribute
  split
  next => exact ⟨_, _, _, _, rfl⟩
  next => exact ⟨_, _, _, _, rfl⟩

/-- A mismatch is remembered in both runs; what of is not compared. -/
theorem remember_noted (env : Env V) (key? : Option MemoKey) (refused : Bool)
    (hm : SameButNoted m n) (h : SameButNoted l l') :
    SameButNoted (remember env key? refused m l) (remember env key? refused n l') := by
  rcases hm with ⟨_, _, _, _, rfl⟩
  rcases h with ⟨_, _, _, _, rfl⟩
  unfold remember
  split
  next => exact ⟨_, _, _, _, rfl⟩
  next =>
      change SameButNoted (if l.inserted = m.inserted then _ else _)
        (if l.inserted = m.inserted then _ else _)
      split
      next => exact ⟨_, _, _, _, rfl⟩
      next => exact ⟨_, _, _, _, rfl⟩

/-- A failed rule or label is noted in both runs. -/
theorem recordNamed_noted (start : Nat) (before : Frontier V) (name : Expected V)
    (h : SameButNoted l l') :
    SameButNoted (l.recordNamed env start before name) (l'.recordNamed env start before name) := by
  rcases h with ⟨_, _, _, _, rfl⟩
  unfold recordNamed
  change SameButNoted (if l.recording env then _ else _) (if l.recording env then _ else _)
  split
  next => exact ⟨_, _, _, _, rfl⟩
  next => exact ⟨_, _, _, _, rfl⟩

/-- The comparison goes on inside of a rule. -/
theorem ready_enterRule_noted (id : RuleId) (definition : Rule V)
    (h : Ready env env AlongNoted probing m n) :
    Ready env env AlongNoted probing (enterRule id definition m) (enterRule id definition n) where
  left := ⟨h.left.within, m.vars.valid_enter⟩
  right := ⟨h.right.within, n.vars.valid_enter⟩
  probing_eq := h.probing_eq
  start := by
    have hstart : AlongNoted m n m n := h.start
    rcases hstart.same with ⟨_, _, _, _, rfl⟩
    exact start_noted hstart.off ⟨_, _, _, _, rfl⟩

/-- Events are not compared. -/
theorem SameButNoted.emit (h : SameButNoted l l') (event event' : Event) :
    SameButNoted (l.emit event) (l'.emit event') := by
  rcases h with ⟨_, _, _, _, rfl⟩
  exact ⟨_, _, _, _, rfl⟩

theorem SameButNoted.rewind (hm : SameButNoted m n) (h : SameButNoted l l') :
    SameButNoted { l with nodes := m.nodes } { l' with nodes := n.nodes } := by
  rcases hm with ⟨_, _, _, _, rfl⟩
  rcases h with ⟨_, _, _, _, rfl⟩
  exact ⟨_, _, _, _, rfl⟩

/-- A look-up that found nothing is counted on both sides. -/
theorem countMiss_noted (env : Env V) (definition : Rule V) (hoff : m.mayInsert = false)
    (h : SameButNoted m n) :
    AlongNoted m n (countMiss env definition m) (countMiss env definition n) := by
  rw [countMiss_eq env definition m, countMiss_eq env definition n]
  rcases h with ⟨_, _, _, _, rfl⟩
  exact ⟨hoff, ⟨_, _, _, _, rfl⟩, false, (Bool.or_false _).symm, (Bool.or_false _).symm⟩

theorem ready_countMiss_noted (definition : Rule V) (h : Ready env env AlongNoted probing m n) :
    Ready env env AlongNoted probing (countMiss env definition m)
      (countMiss env definition n) := by
  have hstart : AlongNoted m n m n := h.start
  have hcount := countMiss_noted env definition hstart.off hstart.same
  rw [countMiss_eq env definition m, countMiss_eq env definition n] at hcount ⊢
  exact ⟨⟨h.left.within, h.left.vars⟩, ⟨h.right.within, h.right.vars⟩, h.probing_eq,
    start_noted hcount.off hcount.same⟩

/-- A mismatch that is known brings its own note. -/
theorem knownMismatch_noted (id : RuleId) (refused : Bool) (hoff : m.mayInsert = false)
    (h : SameButNoted m n) :
    AlongNoted m n (knownMismatch env id refused m) (knownMismatch env id refused n) := by
  rw [knownMismatch_eq env id refused m, knownMismatch_eq env id refused n]
  rcases h with ⟨_, _, _, _, rfl⟩
  exact ⟨hoff, ⟨_, _, _, _, rfl⟩, refused, rfl, rfl⟩

/-- A rule that failed is remembered and noted on both sides. -/
theorem mismatch_noted (env : Env V) (id : RuleId) (definition : Rule V)
    (key? : Option MemoKey) {inside inside' : Machine V} (hm : SameButNoted m n)
    (h : AlongNoted (enterRule id definition m) (enterRule id definition n) inside inside') :
    SameButNoted
      ((remember env key? inside.wouldInsert m
        { leaveRule definition m inside with nodes := m.nodes }).recordNamed env m.offset
          m.frontier (.rule id))
      ((remember env key? inside'.wouldInsert n
        { leaveRule definition n inside' with nodes := n.nodes }).recordNamed env n.offset
          n.frontier (.rule id)) := by
  have hleave := (leaveRule_noted definition hm h).same
  have hkept := remember_noted env key? inside.wouldInsert hm (hm.rewind hleave)
  have hnoted : inside'.wouldInsert = inside.wouldInsert := by
    rcases h.notes with ⟨refused, hl, hl'⟩
    exact hl'.trans hl.symm
  rw [hnoted]
  rcases hm with ⟨_, _, _, _, rfl⟩
  exact recordNamed_noted _ _ _ hkept

/-- The bodies of a rule do alike, and the same is remembered afterwards. -/
theorem alike_body_noted (id : RuleId) (definition : Rule V) (key? : Option MemoKey)
    {eval : Eval V} (h : Follows env env AlongNoted probing eval eval)
    (hready : Ready env env AlongNoted probing m n) :
    Alike (AlongNoted m n) (body env id definition key? eval m)
      (body env id definition key? eval n) := by
  have hstart : AlongNoted m n m n := hready.start
  have halike := h.reached (ready_enterRule_noted id definition hready)
  unfold body
  generalize eval (enterRule id definition m) = outcome at halike ⊢
  generalize eval (enterRule id definition n) = outcome' at halike ⊢
  cases halike with
  | @matched inside inside' hreached =>
      have hleave := leaveRule_noted definition hstart.same hreached.along
      have hsame := contribute_noted id definition hstart.same hleave.same
      refine .matched (hleave.replace ?_ ?_ (hsame.emit _ _))
      · rw [contribute_eq]
        rfl
      · rw [contribute_eq]
        rfl
  | @mismatched inside inside' hreached =>
      have hleave := leaveRule_noted definition hstart.same hreached.along
      have hsame := mismatch_noted env id definition key? hstart.same hreached.along
      refine .mismatched (hleave.replace ?_ ?_ (hsame.emit _ _))
      · rw [recordNamed_eq, remember_eq]
        rfl
      · rw [recordNamed_eq, remember_eq]
        rfl
  | aborted error l l' => exact .aborted _ _ _
  | limited outcome limit position l' => exact .limited _ _ _ _

/-- Rule invocations do alike, as long as repairs are switched off. -/
theorem follows_invoke_noted (env : Env V) (allowance : Nat) (id : RuleId) :
    Follows env env AlongNoted probing (invoke env allowance id) (invoke env allowance id) := by
  induction allowance generalizing id probing with
  | zero =>
      refine ⟨framed_invoke 0 id, framed_invoke 0 id, fun m n hready => ?_⟩
      cases hdefinition : env.grammar.rule? id with
      | none =>
          rw [invoke_unknown env 0 hdefinition]
          exact .aborted _ _ _
      | some definition =>
          rw [invoke_zero hdefinition, invoke_zero hdefinition]
          exact .limited _ _ _ _
  | succ allowance ih =>
      refine ⟨framed_invoke _ id, framed_invoke _ id, fun m n hready => ?_⟩
      have hstart : AlongNoted m n m n := hready.start
      cases hdefinition : env.grammar.rule? id with
      | none =>
          rw [invoke_unknown env _ hdefinition]
          exact .aborted _ _ _
      | some definition =>
          have hbody : Follows env env AlongNoted probing
              (expr env (invoke env allowance) definition.body)
              (expr env (invoke env allowance) definition.body) :=
            (simulates_noted env).follows_expr definition.body (fun _ _ => trivial)
              fun _ next _ => ih next
          have hkey : memoKey? env id definition n = memoKey? env id definition m := by
            rcases hstart.same with ⟨_, _, _, _, rfl⟩
            rfl
          have hlookup : known? env id definition n = known? env id definition m := by
            rcases hstart.same with ⟨_, _, _, _, rfl⟩
            rfl
          cases hknown : known? env id definition m with
          | some refused =>
              rw [invoke_hit hdefinition hknown, invoke_hit hdefinition (hlookup.trans hknown)]
              exact .mismatched (knownMismatch_noted id refused hstart.off hstart.same)
          | none =>
              rw [invoke_body hdefinition hknown, invoke_body hdefinition (hlookup.trans hknown),
                hkey]
              have hcount := countMiss_noted env definition hstart.off hstart.same
              have halike := alike_body_noted id definition (memoKey? env id definition m) hbody
                (ready_countMiss_noted definition hready)
              exact halike.imp fun _ _ h => (simulates_noted env).trans hcount h

/-- So do the alternatives of a choice. -/
theorem alike_alternatives_noted (env : Env V) (allowance : Nat) (items : List (Expr V))
    (hready : Ready env env AlongNoted probing m n) :
    Alike (AlongNoted m n) ((Task.alternatives items).run env allowance m)
      ((Task.alternatives items).run env allowance n) := by
  have hitems : ∀ item ∈ items, Follows env env AlongNoted probing
      (expr env (invoke env allowance) item) (expr env (invoke env allowance) item) :=
    fun item _ => (simulates_noted env).follows_expr item (fun _ _ => trivial)
      fun _ id _ => follows_invoke_noted env allowance id
  rw [Task.run, evalAll_eq_map]
  exact ((simulates_noted env).alternatives hitems).alike m n hready

/-- A first round starts where repairs are just switched off. -/
theorem ready_openRound_noted (hvalid : m.Valid env) :
    Ready env env AlongNoted (m.probes != 0) { m with mayInsert := false } (openRound m) where
  left := ⟨hvalid.within, hvalid.vars⟩
  right := ⟨hvalid.within, hvalid.vars⟩
  probing_eq := rfl
  start := start_noted rfl ⟨_, _, _, _, rfl⟩

end Eval

/-- A first round that is not aborted ends like the alternatives with repairs switched
off. -/
theorem alike_openRound (env : Env V) (allowance : Nat) (items : List (Expr V)) {m : Machine V}
    (hvalid : m.Valid env) {first off : Verdict × Machine V}
    (hfirst : (Task.alternatives items).run env allowance (Eval.openRound m) = first)
    (hoff : (Task.alternatives items).run env allowance { m with mayInsert := false } = off)
    (hends : ∀ error, first.1 ≠ .aborted error) :
    off.1 = first.1 ∧ first.2.Agrees off.2 := by
  have halike := Eval.alike_alternatives_noted env allowance items
    (Eval.ready_openRound_noted hvalid)
  rw [hfirst, hoff] at halike
  cases halike with
  | matched h =>
      rcases h.same with ⟨_, _, _, _, rfl⟩
      exact ⟨rfl, ⟨_, _, _, _, _, _, _, rfl⟩⟩
  | mismatched h =>
      rcases h.same with ⟨_, _, _, _, rfl⟩
      exact ⟨rfl, ⟨_, _, _, _, _, _, _, rfl⟩⟩
  | aborted error l l' => exact absurd rfl (hends error)
  | limited outcome limit position l' => exact absurd rfl (hends _)

end Peg
