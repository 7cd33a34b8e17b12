import Mathlib
import Peg.Proofs.Repair.Reached

/-!
# What a lookahead leaves behind

A lookahead works on the stack, the reading head and the nodes of its surroundings, and
gives them back when it is closed.  What is recorded of a parse it cannot give back: the
furthest failures, the repairs, and the note of a repair that was refused.  So an evaluation
records none of them as long as a lookahead is going on.

A remembered mismatch brings the note of a refused repair along.  It cannot bring one into a
lookahead, because whether one is going on is part of what a mismatch is remembered under;
this is an invariant of the memo, which every evaluation keeps.

Main results:

- `Derives.discreet`: what an evaluation in a lookahead does not record.
- `Reached.notesAdmitted`: the notes in the memo, wherever a pass gets to.
- `Reached.lookahead_leaves_no_trace`: a lookahead changes variables, memo, counts and events
  only, and the two kinds of it have opposite verdicts.
-/

namespace Peg

open Text Eval

variable {V : Type}

/-! ## Where repairs can be refused -/

/-- Whether a repair could be made or refused: in a parse with repairs, outside of
lookahead. -/
def MemoContext.admitsRepairs : MemoContext → Bool
  | .plain => false
  | .repair _ _ inProbe _ => !inProbe

/-- Whether a repair could be made or refused at a machine. -/
def Machine.admitsRepairs (env : Env V) (m : Machine V) : Bool :=
  (m.memoContext env).admitsRepairs

/-- A remembered mismatch comes with the note of a refused repair only if one could be
refused where it was remembered. -/
def Memo.NotesAdmitted (memo : Memo) : Prop :=
  ∀ key, memo.find? key = some true → key.context.admitsRepairs = true

variable {env : Env V} {root : RuleId} {a a' : Nat} {task task' : Task V}
variable {m m' n l left : Machine V} {o : Verdict × Machine V} {made : List StandIn}

/-- Repairs are possible in a recovery pass outside of lookahead. -/
theorem Machine.admitsRepairs_eq (env : Env V) (m : Machine V) :
    m.admitsRepairs env = (env.pass.isRepair && m.probes == 0) := by
  unfold admitsRepairs memoContext
  cases env.pass.isRepair with
  | false => rfl
  | true => cases m.probes <;> rfl

/-- In a lookahead no repair can be made or refused. -/
theorem Machine.admitsRepairs_openProbe (env : Env V) (m : Machine V) :
    (openProbe m).admitsRepairs env = false := by
  simp [admitsRepairs_eq, openProbe]

/-- Where nothing is remembered, no refused repair is. -/
theorem Memo.notesAdmitted_empty : Memo.empty.NotesAdmitted := by
  intro key hfound
  rw [Memo.find?_empty] at hfound
  cases hfound

/-- A refused repair may be remembered for surroundings in which repairs are possible. -/
theorem Memo.NotesAdmitted.insert {memo : Memo} {limit : Nat} {key : MemoKey} {noted : Bool}
    (h : memo.NotesAdmitted) (hnoted : noted = true → key.context.admitsRepairs = true) :
    (memo.insert limit key noted).NotesAdmitted := by
  intro other hfound
  by_cases heq : other = key
  · subst heq
    rw [Memo.find?_insert_self] at hfound
    exact hnoted (Option.some.inj hfound)
  · exact h other (Memo.eq_of_find?_insert heq hfound)

/-- What is remembered under a key of a machine is remembered in its context. -/
theorem Eval.context_of_memoKey? {id : RuleId} {definition : Rule V} {key : MemoKey}
    (h : key ∈ memoKey? env id definition m) : key.context = m.memoContext env := by
  unfold memoKey? at h
  split at h
  next =>
      cases h
      rfl
  next => cases h

/-! ## Nothing is recorded in a lookahead -/

namespace Machine

/-- What an evaluation does not record: repairs and failures in a lookahead, and refused
repairs where none could be refused.  The notes in the memo stay in order. -/
structure Discreet (env : Env V) (m left : Machine V) : Prop where
  probes : left.probes = m.probes
  notes : left.memo.NotesAdmitted
  wouldInsert : m.admitsRepairs env = false → left.wouldInsert = m.wouldInsert
  frontier : m.probes ≠ 0 → left.frontier = m.frontier
  gaps : m.probes ≠ 0 → left.gaps = m.gaps

/-- A machine whose memo is sound has done nothing yet. -/
theorem Discreet.refl (hnotes : m.memo.NotesAdmitted) : Discreet env m m :=
  ⟨rfl, hnotes, fun _ => rfl, fun _ => rfl, fun _ => rfl⟩

/-- Whether repairs are possible is decided by the probes alone. -/
theorem admitsRepairs_congr (h : left.probes = m.probes) :
    left.admitsRepairs env = m.admitsRepairs env := by
  rw [admitsRepairs_eq, admitsRepairs_eq, h]

/-- A stretch behind another. -/
theorem Discreet.trans {a b c : Machine V} (hab : Discreet env a b) (hbc : Discreet env b c) :
    Discreet env a c where
  probes := hbc.probes.trans hab.probes
  notes := hbc.notes
  wouldInsert hnone :=
    (hbc.wouldInsert ((admitsRepairs_congr hab.probes).trans hnone)).trans (hab.wouldInsert hnone)
  frontier hprobing := (hbc.frontier (hab.probes ▸ hprobing)).trans (hab.frontier hprobing)
  gaps hprobing := (hbc.gaps (hab.probes ▸ hprobing)).trans (hab.gaps hprobing)

/-- The part of a machine that this is about. -/
def recorded (m : Machine V) : Nat × Memo × Bool × Frontier V × List Gap :=
  (m.probes, m.memo, m.wouldInsert, m.frontier, m.gaps)

/-- Nothing else matters for it. -/
theorem Discreet.congr (h : Discreet env m left) (hstart : n.recorded = m.recorded)
    (hend : l.recorded = left.recorded) : Discreet env n l := by
  simp only [recorded, Prod.mk.injEq] at hstart hend
  rcases hstart with ⟨hprobes, -, hnoted, hfrontier, hgaps⟩
  rcases hend with ⟨hprobes', hmemo', hnoted', hfrontier', hgaps'⟩
  refine ⟨?_, ?_, ?_, ?_, ?_⟩
  · rw [hprobes, hprobes', h.probes]
  · rw [hmemo']
    exact h.notes
  · rw [admitsRepairs_congr hprobes, hnoted, hnoted']
    exact h.wouldInsert
  · rw [hprobes, hfrontier, hfrontier']
    exact h.frontier
  · rw [hprobes, hgaps, hgaps']
    exact h.gaps

/-- Where a repair can be refused, no lookahead is going on. -/
theorem Discreet.of_admitsRepairs (hadmits : m.admitsRepairs env = true)
    (hprobes : left.probes = m.probes) (hnotes : left.memo.NotesAdmitted) :
    Discreet env m left := by
  have hnone : m.probes = 0 := by
    rw [admitsRepairs_eq, Bool.and_eq_true, beq_iff_eq] at hadmits
    exact hadmits.2
  refine ⟨hprobes, hnotes, fun hnot => ?_, absurd hnone, absurd hnone⟩
  rw [hadmits] at hnot
  cases hnot

/-- Failures are recorded outside of lookahead only. -/
theorem Discreet.refrontier (h : Discreet env m left) (hrecording : left.recording env = true)
    (frontier : Frontier V) : Discreet env m { left with frontier := frontier } := by
  have hnone : m.probes = 0 := by
    simp only [recording, Bool.and_eq_true, beq_iff_eq] at hrecording
    exact h.probes.symm.trans hrecording.2
  exact { h with frontier := absurd hnone }

/-- Inside of lookahead a failure is not recorded. -/
theorem Discreet.recordFailure (h : Discreet env m left) (offset : Nat) (expected : Expected V) :
    Discreet env m (left.recordFailure env offset expected) := by
  unfold Machine.recordFailure
  split
  next hrecording => exact h.refrontier hrecording _
  next => exact h

/-- Inside of lookahead no rule or label is recorded either. -/
theorem Discreet.recordNamed (h : Discreet env m left) (start : Nat) (before : Frontier V)
    (expected : Expected V) : Discreet env m (left.recordNamed env start before expected) := by
  unfold Machine.recordNamed
  split
  next hrecording => exact h.refrontier hrecording _
  next => exact h

/-- A mismatch with the note of a refused repair is remembered only where one could be
refused. -/
theorem Discreet.remember {key? : Option MemoKey} {noted : Bool} (h : Discreet env m left)
    (hkey : ∀ key ∈ key?, key.context = m.memoContext env)
    (hnoted : noted = true → m.admitsRepairs env = true) (outer : Machine V) :
    Discreet env m (Eval.remember env key? noted outer left) := by
  unfold Eval.remember
  split
  next => exact h
  next key =>
      split
      next =>
          have hcontext : noted = true → key.context.admitsRepairs = true := by
            rw [hkey key rfl]
            exact hnoted
          exact { h with notes := h.notes.insert hcontext }
      next => exact h

/-- A round of a choice is a round outside of lookahead. -/
theorem Discreet.closeRound (htwo : takesTwoRounds env m = true)
    (h : Discreet env (openRound m) left) (stack : Stack V) :
    Discreet env m { Eval.closeRound m left with stack := stack } := by
  have hadmits : m.admitsRepairs env = true := by
    rw [admitsRepairs_eq]
    exact (Bool.and_eq_true_iff.1 htwo).1
  exact .of_admitsRepairs hadmits h.probes h.notes

/-- A lookahead takes no notes of refused repairs out of it. -/
theorem Discreet.closeProbe (h : Discreet env (openProbe m) left) :
    Discreet env m (Eval.closeProbe m left) := by
  have hnone := admitsRepairs_openProbe env m
  have hprobes : left.probes = m.probes + 1 := h.probes
  have hprobing : (openProbe m).probes ≠ 0 := Nat.succ_ne_zero m.probes
  refine ⟨?_, h.notes, fun _ => h.wouldInsert hnone, fun _ => h.frontier hprobing,
    fun _ => h.gaps hprobing⟩
  simp [Eval.closeProbe, hprobes]

/-- The note of a refused repair is set aside for the body of a rule. -/
theorem Discreet.leaveRule {id : RuleId} {definition : Rule V}
    (h : Discreet env (enterRule id definition m) left) :
    Discreet env m (Eval.leaveRule definition m left) where
  probes := h.probes
  notes := h.notes
  wouldInsert hnone := by
    have hnote : left.wouldInsert = false := h.wouldInsert hnone
    simp [Eval.leaveRule, hnote]
  frontier := h.frontier
  gaps := h.gaps

end Machine

open Machine

namespace Eval

/-- Going back after a mismatch touches nothing of what this is about. -/
theorem discreet_rewinding {eval : Eval V} (h : Discreet env m (eval m).2) :
    Discreet env m (rewinding eval m).2 := by
  rcases exists_snd_rewinding eval m with ⟨_, _, hleft⟩
  rw [hleft]
  exact h.congr rfl rfl

/-- Inside of lookahead a failed terminal is neither recorded nor stood in for. -/
theorem discreet_terminal (e : Expr V) (hnotes : m.memo.NotesAdmitted) :
    Discreet env m (terminal env e m).2 := by
  have hsame : Discreet env m m := .refl hnotes
  unfold terminal
  split
  next => exact hsame.congr rfl rfl
  next =>
      unfold missing
      split
      next => exact hsame.recordFailure _ _
      next errorOffset hpass =>
          by_cases hstand : mayStandIn env errorOffset e m = true
          · have hadmits : m.admitsRepairs env = true := by
              simp only [mayStandIn, Bool.and_eq_true, beq_iff_eq] at hstand
              simp [admitsRepairs_eq, hpass, Pass.isRepair, hstand.1.1.1.1]
            rw [if_pos hstand]
            split
            next => exact .of_admitsRepairs hadmits rfl hnotes
            next => exact .of_admitsRepairs hadmits rfl hnotes
          · rw [if_neg hstand]
            exact hsame

/-- An action cannot touch any of it. -/
theorem discreet_runAction (env : Env V) (action : Action V) (span : Span) (synthetic : Bool)
    (hnotes : m.memo.NotesAdmitted) :
    Discreet env m (runAction env action span synthetic m).2 := by
  rcases exists_snd_runAction env action span synthetic m with ⟨_, _, _, hleft⟩
  rw [hleft]
  exact (Discreet.refl hnotes).congr rfl rfl

/-- A label is discreet if what it stands around is. -/
theorem discreet_labeled {name : String} (h : Discreet env (openLabel name m) o.2) :
    Discreet env m (labeled env name (fun _ => o) m).2 := by
  rw [labeled_eq]
  rcases o with ⟨_ | _ | error, left⟩
  · exact h.congr rfl rfl
  · have hnoted : Discreet env m { closeLabel left with nodes := m.nodes } := h.congr rfl rfl
    exact hnoted.recordNamed m.offset m.frontier (.label name)
  · exact h.congr rfl rfl

/-- A mismatch that is remembered in a lookahead has no note. -/
theorem discreet_knownMismatch {id : RuleId} {definition : Rule V} {refused : Bool}
    (hknown : known? env id definition m = some refused) (hnotes : m.memo.NotesAdmitted) :
    Discreet env m (knownMismatch env id refused m) := by
  rcases Option.bind_eq_some_iff.1 hknown with ⟨key, hkey, hfound⟩
  have hnoted : m.admitsRepairs env = false → refused = false := by
    intro hnone
    by_contra hrefused
    rw [Bool.not_eq_false] at hrefused
    subst hrefused
    have hadmits := hnotes key hfound
    rw [context_of_memoKey? hkey] at hadmits
    exact absurd (hadmits.symm.trans hnone) nofun
  refine Discreet.recordNamed ?_ _ _ _
  refine ⟨rfl, hnotes, fun hnone => ?_, fun _ => rfl, fun _ => rfl⟩
  simp [hnoted hnone]

/-- A rule is discreet if its body is: it remembers a refused repair only where it could be made.
-/
theorem discreet_body {id : RuleId} {definition : Rule V} {key? : Option MemoKey}
    (hkey : ∀ key ∈ key?, key.context = m.memoContext env)
    (h : Discreet env (enterRule id definition m) o.2) :
    Discreet env m (body env id definition key? (fun _ => o) m).2 := by
  have hleave := h.leaveRule
  unfold body
  rcases o with ⟨_ | _ | error, inside⟩
  · dsimp only
    rw [contribute_eq]
    exact hleave.congr rfl rfl
  · have hnoted : inside.wouldInsert = true → m.admitsRepairs env = true := by
      intro hnote
      by_contra hnone
      have hsame : inside.wouldInsert = false := h.wouldInsert (eq_false_of_ne_true hnone)
      exact absurd (hnote.symm.trans hsame) nofun
    have hback : Discreet env m { leaveRule definition m inside with nodes := m.nodes } :=
      hleave.congr rfl rfl
    exact ((hback.remember hkey hnoted m).recordNamed m.offset m.frontier (.rule id)).congr rfl rfl
  · exact hleave

end Eval

/-- What an evaluation does not record in a lookahead. -/
theorem Derives.discreet (h : Derives env a task m o made) (hnotes : m.memo.NotesAdmitted) :
    Discreet env m o.2 := by
  induction h with
  | terminal hterminal => exact Eval.discreet_rewinding (Eval.discreet_terminal _ hnotes)
  | action => exact Eval.discreet_rewinding (Eval.discreet_runAction _ _ _ _ hnotes)
  | seq hitems ih => exact Eval.discreet_rewinding ((ih hnotes).congr rfl rfl)
  | done | no_alternative | unknown | limit => exact .refl hnotes
  | @act_next a start inherited action items previous synthetic m left o made hact hrest ih =>
      have hfirst := Eval.discreet_runAction env action previous synthetic hnotes
      rw [hact] at hfirst
      exact hfirst.trans (ih hfirst.notes)
  | act_last hends => exact Eval.discreet_runAction _ _ _ _ hnotes
  | @part_next a start inherited item items previous synthetic m left o made later hitem hpart
      hrest ihpart ihrest =>
      have hfirst : Discreet env m left := (ihpart hnotes).congr rfl rfl
      exact hfirst.trans (ihrest hfirst.notes)
  | part_last hitem hpart hends ih => exact (ih hnotes).congr rfl rfl
  | choice_once honce hround ih => exact Eval.discreet_rewinding (ih hnotes)
  | choice_first htwo hround hends ih =>
      exact Eval.discreet_rewinding ((ih hnotes).closeRound htwo _)
  | @choice_second a items m left o made later htwo hround hnoted hagain ihround ihagain =>
      have hfirst : Discreet env m (Eval.undoRound m left) := (ihround hnotes).closeRound htwo _
      exact Eval.discreet_rewinding (hfirst.trans (ihagain hfirst.notes))
  | @alternative_next a item items m left o made later hmore hfirst hrest ihfirst ihrest =>
      have hback : Discreet env m left.backtrack := (ihfirst hnotes).congr rfl rfl
      exact hback.trans (ihrest hback.notes)
  | alternative_last hends hfirst ih => exact ih hnotes
  | star hmany ih => exact Eval.discreet_rewinding ((ih hnotes).congr rfl rfl)
  | @many_next a body m left o made later hfirst hless hrest ihfirst ihrest =>
      have hround : Discreet env m left := (ihfirst hnotes).congr rfl rfl
      exact hround.trans (ihrest hround.notes)
  | many_last hfirst hends ih =>
      rw [Eval.snd_accepted]
      exact (ih hnotes).congr rfl rfl
  | plus_next hfirst hless hrest ihfirst ihrest =>
      have hround := ihfirst hnotes
      exact Eval.discreet_rewinding ((hround.trans (ihrest hround.notes)).congr rfl rfl)
  | plus_last hfirst hends ih => exact Eval.discreet_rewinding ((ih hnotes).congr rfl rfl)
  | optional hbody ih =>
      refine Eval.discreet_rewinding ?_
      rw [Eval.optional_eq, Eval.snd_keepingCommitment, Eval.snd_accepted]
      exact (ih hnotes).congr rfl rfl
  | notAhead hbody ih | ahead hbody ih => exact Eval.discreet_rewinding (ih hnotes).closeProbe
  | label hbody ih => exact Eval.discreet_rewinding (Eval.discreet_labeled (ih hnotes))
  | rule hcall ih => exact Eval.discreet_rewinding (ih hnotes)
  | hit hdefinition hknown => exact Eval.discreet_knownMismatch hknown hnotes
  | @body a id definition m o made hdefinition hknown hbody ih =>
      have hkey : ∀ key ∈ Eval.memoKey? env id definition m,
          key.context = (Eval.countMiss env definition m).memoContext env := by
        rw [Eval.countMiss_eq]
        exact fun key hkey => Eval.context_of_memoKey? hkey
      have hcount : m.recorded = (Eval.countMiss env definition m).recorded := by
        rw [Eval.countMiss_eq]
        rfl
      have hinside := ih (by rw [Eval.countMiss_eq]; exact hnotes)
      exact (Eval.discreet_body hkey hinside).congr hcount rfl

/-! ## Wherever a pass gets to -/

/-- The notes in the memo are in order behind every evaluation. -/
theorem Task.notesAdmitted_of_run (h : task.run env a m = o) (hnotes : m.memo.NotesAdmitted) :
    o.2.memo.NotesAdmitted := by
  rcases exists_derives env a task m with ⟨made, hmade⟩
  rw [h] at hmade
  exact (hmade.discreet hnotes).notes

/-- So they are where the parts of an evaluation start. -/
theorem Begins.notesAdmitted (h : Begins env a task m a' task' m')
    (hnotes : m.memo.NotesAdmitted) : m'.memo.NotesAdmitted := by
  cases h with
  | seq | part | choice_once | choice_first | alternative | star | many | plus | optional
  | notAhead | ahead | label | rule => exact hnotes
  | @act_next _ start inherited action items previous synthetic _ left hact =>
      have hleft := Eval.discreet_runAction env action previous synthetic hnotes
      rw [hact] at hleft
      exact hleft.notes
  | part_next hitem hpart => exact Task.notesAdmitted_of_run hpart hnotes
  | choice_second htwo hround hnoted => exact Task.notesAdmitted_of_run hround hnotes
  | alternative_next hmore hfirst => exact Task.notesAdmitted_of_run hfirst hnotes
  | many_next hfirst hless => exact Task.notesAdmitted_of_run hfirst hnotes
  | plus_next hfirst hless => exact Task.notesAdmitted_of_run hfirst hnotes
  | body hdefinition hknown =>
      rw [countMiss_eq]
      exact hnotes

/-- The notes in the memo are in order wherever a pass gets to. -/
theorem Reached.notesAdmitted (h : Reached env root a task m) : m.memo.NotesAdmitted := by
  induction h with
  | start =>
      rw [passStart_eq]
      exact Memo.notesAdmitted_empty
  | part h hbegins ih => exact hbegins.notesAdmitted ih

/-! ## Lookahead -/

/-- The other verdict, unless there is none. -/
def Verdict.negate : Verdict → Verdict
  | .matched => .mismatched
  | .mismatched => .matched
  | .aborted error => .aborted error

/-- The two kinds of lookahead have opposite verdicts. -/
theorem Eval.aheadVerdict_false (verdict : Verdict) :
    aheadVerdict false verdict = (aheadVerdict true verdict).negate := by
  cases verdict <;> rfl

/-- A lookahead has gone back already when it is closed. -/
theorem Eval.snd_rewinding_ahead (expectMatch : Bool) (eval : Eval V) (m : Machine V) :
    (rewinding (ahead expectMatch eval) m).2 = closeProbe m (eval (openProbe m)).2 := by
  unfold rewinding ahead
  generalize eval (openProbe m) = o
  rcases o with ⟨_ | _ | _, left⟩ <;> cases expectMatch <;> rfl

/-- What is left of a lookahead that was not aborted. -/
theorem Eval.closeProbe_eq (h : (openProbe m).Frame env left)
    (hdiscreet : Discreet env (openProbe m) left) :
    closeProbe m left =
      { m with
        vars := left.vars, memo := left.memo, stats := left.stats, events := left.events } := by
  have hstack : left.stack.rollback = m.stack := h.tracks.rollback_eq
  have hsuppressed : left.suppressed = m.suppressed := h.suppressed
  have hdepth : left.depth = m.depth := h.depth
  have hprobes : left.probes = m.probes + 1 := h.probes
  have hrule : left.rule? = m.rule? := h.rule?
  have hscopes : left.scopes = m.scopes := h.scopes
  have hswitch : left.mayInsert = m.mayInsert := h.mayInsert
  have hnoted : left.wouldInsert = m.wouldInsert :=
    hdiscreet.wouldInsert (admitsRepairs_openProbe env m)
  have hprobing : (openProbe m).probes ≠ 0 := Nat.succ_ne_zero m.probes
  have hfrontier : left.frontier = m.frontier := hdiscreet.frontier hprobing
  have hgaps : left.gaps = m.gaps := hdiscreet.gaps hprobing
  simp only [closeProbe, hstack, hsuppressed, hdepth, hprobes, hrule, hscopes, hswitch, hnoted,
    hfrontier, hgaps, Nat.add_sub_cancel]

/-- So it is for a lookahead that gives a verdict. -/
theorem Eval.eq_of_ahead {expectMatch : Bool} {verdict : Verdict}
    (hframed : Leaves ((openProbe m).Frame env) o) (hdiscreet : Discreet env (openProbe m) o.2)
    (hrun : rewinding (ahead expectMatch fun _ => o) m = (verdict, left))
    (hends : ∀ error, verdict ≠ .aborted error) :
    left =
      { m with
        vars := left.vars, memo := left.memo, stats := left.stats, events := left.events } := by
  have hleft : closeProbe m o.2 = left := by
    rw [← snd_rewinding_ahead expectMatch (fun _ => o), hrun]
  have hverdict : aheadVerdict expectMatch o.1 = verdict := by
    rw [← fst_ahead expectMatch (fun _ => o) m, ← fst_rewinding, hrun]
  have hframe : (openProbe m).Frame env o.2 := by
    rcases o with ⟨_ | _ | error, inside⟩
    · exact hframed
    · exact hframed
    · exact absurd hverdict.symm (hends error)
  subst hleft
  exact closeProbe_eq hframe hdiscreet

/-- Wherever a pass gets to, the two kinds of lookahead have opposite verdicts; and one that
is not aborted leaves everything as it was, but for variables, memo, counts and events. -/
theorem Reached.lookahead_leaves_no_trace (h : Reached env root a task m) (allowance : Nat)
    (body : Expr V) :
    ((Task.expr (.notAhead body)).run env allowance m).1 =
        ((Task.expr (.ahead body)).run env allowance m).1.negate ∧
      ∀ e, e = .notAhead body ∨ e = .ahead body →
        ∀ verdict left, (Task.expr e).run env allowance m = (verdict, left) →
          (∀ error, verdict ≠ .aborted error) →
            left = { m with
              vars := left.vars
              memo := left.memo
              stats := left.stats
              events := left.events } := by
  refine ⟨?_, fun e he verdict left hrun hends => ?_⟩
  · simp only [Task.run, Eval.expr, fst_rewinding, fst_ahead]
    exact aheadVerdict_false _
  · have hvalid : (openProbe m).Valid env := ⟨h.valid.within, h.valid.vars⟩
    rcases exists_derives env allowance (.expr body) (openProbe m) with ⟨made, hmade⟩
    have hframed := Task.framed_expr hvalid hmade.run_eq
    have hdiscreet := hmade.discreet h.notesAdmitted
    rcases he with rfl | rfl
    · exact Eval.eq_of_ahead hframed hdiscreet hrun hends
    · exact Eval.eq_of_ahead hframed hdiscreet hrun hends

/-- A mark that replaces the topmost value. -/
def remark : Expr Nat :=
  .seq [.any, .action fun _ => do let _ ← Program.pop; Program.push 8; return true, .char 'z']

/-- A grammar that looks for such a mark ahead of some text. -/
def lookout : Grammar Nat where
  rules := #[
    ⟨"lookout", .seq [.action fun _ => do Program.push 7; return true, .notAhead remark, .any], {}⟩]

/-- A repairing pass over a text with no mark in it. -/
def lookoutRepair : Env Nat :=
  ⟨lookout, .plain ['a', 'b'], {}, .repair 0⟩

/-- In a recovery pass a lookahead whose action replaces a value leaves the value as it was. -/
theorem Reached.lookahead_leaves_no_trace_lookout :
    ∃ a task m left, Reached lookoutRepair ⟨0⟩ a task m ∧ m.stack.values = [7] ∧
      (Task.expr (.notAhead remark)).run lookoutRepair a m = (.matched, left) ∧
      ((Task.expr (.ahead remark)).run lookoutRepair a m).1.negate = .matched ∧
      left.stats.actionsRun = m.stats.actionsRun + 1 ∧
      left = { m with
        vars := left.vars
        memo := left.memo
        stats := left.stats
        events := left.events } := by
  have hbody : Reached lookoutRepair ⟨0⟩ 255 _ _ := .part (.part .start (.body rfl rfl)) .seq
  have hmarked := Reached.part hbody (.act_next rfl)
  have hboth := hmarked.lookahead_leaves_no_trace 255 remark
  have hnone := hboth.2 (.notAhead remark) (.inl rfl) .matched _ rfl nofun
  exact ⟨255, _, _, _, hmarked, rfl, rfl, hboth.1.symm.trans rfl, rfl, hnone⟩

end Peg
