import Mathlib
import Peg.Proofs.Events.Balanced
import Peg.Proofs.Parse.Derivation

/-!
# What is observed of an evaluation

Every evaluation adds a list of events to those from before.  It is balanced, unless the
evaluation is aborted, in which case it is broken off; it starts where the evaluation does;
and invocations are nested in it no deeper than the evaluation may nest them.  What the
evaluation counts is what can be counted in the list.

Main results:

- `Derives.exists_observed`: what is observed of an evaluation.
- `exists_observed_runPass`: what is observed of a pass.
-/

namespace Peg

open Text Event

variable {V : Type}

/-- Where a pass may make repairs, if it may. -/
def Pass.errorOffset? : Pass → Option Nat
  | first => none
  | repair errorOffset => some errorOffset

/-- Whether an evaluation has ended the parse with an error. -/
def Verdict.isAborted : Verdict → Bool
  | .aborted _ => true
  | _ => false

theorem Verdict.isAborted_eq_false_iff {verdict : Verdict} :
    verdict.isAborted = false ↔ ∀ error, verdict ≠ .aborted error := by
  cases verdict <;> simp [isAborted]

namespace Eval

@[simp] theorem isAborted_accepted (o : Verdict × Machine V) :
    (accepted o).1.isAborted = o.1.isAborted := by
  rcases o with ⟨_ | _ | _, left⟩ <;> rfl

@[simp] theorem isAborted_aheadVerdict (expectMatch : Bool) (verdict : Verdict) :
    (aheadVerdict expectMatch verdict).isAborted = verdict.isAborted := by
  cases verdict <;> cases expectMatch <;> rfl

end Eval

namespace Machine

/-- Where a pass is: at which offset, and in how many invocations. -/
def place (m : Machine V) : Nat × Nat :=
  (m.offset, m.depth)

/-- What is recorded of a pass for those who watch it. -/
def watched (m : Machine V) : List Event × Stats :=
  (m.events, m.stats)

end Machine

/-- What is observed of an evaluation that may nest a number of invocations. -/
structure Observed (env : Env V) (a : Nat) (m : Machine V) (o : Verdict × Machine V)
    (trace : List Event) : Prop where
  events_eq : o.2.events = trace.reverse ++ m.events
  brokenOff : BrokenOff env.pass.errorOffset? a m.offset trace
  balanced : o.1.isAborted = false → Balanced env.pass.errorOffset? a m.offset trace
  adds : o.1.isAborted = false → Stats.Adds m.depth trace m.stats o.2.stats

variable {env : Env V} {a : Nat} {task : Task V} {m n left : Machine V} {verdict : Verdict}
variable {o o' : Verdict × Machine V} {made : List StandIn} {trace later : List Event}

/-- A list that is balanced whatever becomes of the evaluation. -/
theorem observed_of_balanced (hevents : o.2.events = trace.reverse ++ m.events)
    (hbalanced : Balanced env.pass.errorOffset? a m.offset trace)
    (hadds : Stats.Adds m.depth trace m.stats o.2.stats) : Observed env a m o trace :=
  ⟨hevents, hbalanced.brokenOff, fun _ => hbalanced, fun _ => hadds⟩

namespace Observed

/-- Nothing is observed where nothing is recorded. -/
theorem none (h : o.2.watched = m.watched) : Observed env a m o [] := by
  simp only [Machine.watched, Prod.mk.injEq] at h
  rcases h with ⟨hevents, hstats⟩
  refine observed_of_balanced hevents .nil ?_
  rw [hstats]
  exact Stats.adds_nil m.stats m.stats.memoMisses m.stats.actionsRun

/-- What matters for it. -/
theorem congr (h : Observed env a m o trace) (hplace : n.place = m.place)
    (hstart : n.watched = m.watched) (hverdict : o'.1.isAborted = o.1.isAborted)
    (hend : o'.2.watched = o.2.watched) : Observed env a n o' trace := by
  simp only [Machine.place, Machine.watched, Prod.mk.injEq] at hplace hstart hend
  rcases hplace with ⟨hoffset, hdepth⟩
  rcases hstart with ⟨hevents, hstats⟩
  rcases hend with ⟨hevents', hstats'⟩
  refine ⟨?_, ?_, ?_, ?_⟩
  · rw [hevents, hevents', h.events_eq]
  · rw [hoffset]
    exact h.brokenOff
  · rw [hverdict, hoffset]
    exact h.balanced
  · rw [hverdict, hdepth, hstats, hstats']
    exact h.adds

/-- One stretch after another. -/
theorem append (h : Observed env a m (verdict, left) trace) (hends : verdict.isAborted = false)
    (hle : m.offset ≤ left.offset) (hdepth : left.depth = m.depth)
    (hlater : Observed env a left o later) : Observed env a m o (trace ++ later) where
  events_eq := by
    have hleft : left.events = trace.reverse ++ m.events := h.events_eq
    rw [hlater.events_eq, hleft, List.reverse_append, List.append_assoc]
  brokenOff := (h.balanced hends).append_brokenOff (hlater.brokenOff.mono hle)
  balanced hmore := (h.balanced hends).append ((hlater.balanced hmore).mono hle)
  adds hmore := by
    have hadds : Stats.Adds m.depth later left.stats o.2.stats := hdepth ▸ hlater.adds hmore
    exact (h.adds hends).append hadds (h.balanced hends)

theorem rewinding {eval : Eval V} (h : Observed env a m (eval m) trace) :
    Observed env a m (Eval.rewinding eval m) trace := by
  rcases Eval.exists_snd_rewinding eval m with ⟨_, _, hleft⟩
  refine h.congr rfl rfl ?_ ?_
  · rw [Eval.fst_rewinding]
  · rw [hleft]
    rfl

/-- An alternative that did not match, and the step to the next one. -/
theorem backtrack (h : Observed env a m (.mismatched, left) trace)
    (hle : m.offset ≤ left.offset) (hdepth : left.depth = m.depth) :
    Observed env a m (.mismatched, left.backtrack) (trace ++ [.backtrack left.offset]) := by
  refine h.append rfl hle hdepth (observed_of_balanced rfl ?_ ?_)
  · exact .backtrack (Nat.le_refl _) .nil
  · exact ⟨rfl, rfl, rfl, rfl, Nat.le_refl _, rfl⟩

/-- An invocation that was left again. -/
theorem call {id : RuleId} {definition : Rule V} {inside : Machine V} {last : Nat}
    {matched : Bool}
    (h : Observed env a (Eval.enterRule id definition m) (verdict, inside) trace)
    (hends : verdict.isAborted = false) (hle : m.offset ≤ last)
    (hback : matched = false → last = m.offset)
    (hleft : o.2.watched = (inside.emit (.exit id last matched)).watched) :
    Observed env (a + 1) m o (.enter id m.offset :: (trace ++ [.exit id last matched])) := by
  simp only [Machine.watched, Machine.emit, Prod.mk.injEq] at hleft
  rcases hleft with ⟨hevents, hstats⟩
  have hinside : inside.events = trace.reverse ++ .enter id m.offset :: m.events := h.events_eq
  refine observed_of_balanced ?_ ?_ ?_
  · rw [hevents, hinside]
    simp
  · exact .call (Nat.le_refl _) hle hback (h.balanced hends) .nil
  · rw [hstats]
    exact (h.adds hends).call (h.balanced hends)

/-- An invocation in which the parse was aborted. -/
theorem abort {id : RuleId} {definition : Rule V} {error : ParseError} {inside : Machine V}
    (h : Observed env a (Eval.enterRule id definition m) (.aborted error, inside) trace)
    (hleft : left.watched = inside.watched) :
    Observed env (a + 1) m (.aborted error, left) (.enter id m.offset :: trace) := by
  simp only [Machine.watched, Prod.mk.injEq] at hleft
  have hinside : inside.events = trace.reverse ++ .enter id m.offset :: m.events := h.events_eq
  refine ⟨?_, h.brokenOff.enter id, nofun, nofun⟩
  change left.events = _
  rw [hleft.1, hinside]
  simp

end Observed

namespace Eval

/-- Actions are counted, but nothing else is observed of them. -/
theorem observed_runAction (action : Action V) (span : Span) (synthetic : Bool)
    (m : Machine V) : Observed env a m (runAction env action span synthetic m) [] := by
  refine observed_of_balanced ?_ .nil ?_
  · unfold runAction
    dsimp only
    generalize (action _).run ⟨m.stack, m.vars⟩ = result
    rcases result with ⟨error | _ | _, space⟩ <;> rfl
  · have hadds : Stats.Adds m.depth [] m.stats _ :=
      Stats.adds_nil m.stats m.stats.memoMisses (m.stats.actionsRun + 1)
    unfold runAction
    dsimp only
    generalize (action _).run ⟨m.stack, m.vars⟩ = result
    rcases result with ⟨error | _ | _, space⟩
    · exact hadds
    · exact hadds
    · exact hadds

/-- A terminal is stood in for behind the place where the first pass failed, or nothing is
observed of it. -/
theorem exists_observed_terminal (a : Nat) (e : Expr V) (m : Machine V) :
    ∃ trace, Observed env a m (terminal env e m) trace := by
  unfold terminal
  split
  next => exact ⟨[], .none rfl⟩
  next =>
      unfold missing
      split
      next =>
          rw [Machine.recordFailure_eq]
          exact ⟨[], .none rfl⟩
      next errorOffset hpass =>
          by_cases hstand : mayStandIn env errorOffset e m = true
          · by_cases hon : m.mayInsert = true
            · have hbehind : errorOffset ≤ m.offset := by
                simp only [mayStandIn, Bool.and_eq_true, decide_eq_true_eq] at hstand
                exact hstand.1.1.2
              have herror : env.pass.errorOffset? = some errorOffset := by
                rw [hpass]
                rfl
              rw [if_pos hstand, if_pos hon]
              refine ⟨[.inserted m.offset], observed_of_balanced rfl ?_ ?_⟩
              · exact .inserted herror hbehind (Nat.le_refl _) .nil
              · exact ⟨rfl, rfl, rfl, rfl, Nat.le_refl _, rfl⟩
            · rw [if_pos hstand, if_neg hon]
              exact ⟨[], .none rfl⟩
          · rw [if_neg hstand]
            exact ⟨[], .none rfl⟩

/-- So are look-ups that find nothing. -/
theorem observed_countMiss (definition : Rule V) (m : Machine V) :
    Observed env a m (.matched, countMiss env definition m) [] := by
  unfold countMiss
  split
  next =>
      refine observed_of_balanced rfl .nil ?_
      exact Stats.adds_nil m.stats (m.stats.memoMisses + 1) m.stats.actionsRun
  next => exact .none rfl

theorem observed_knownMismatch (id : RuleId) (refused : Bool) (m : Machine V) :
    Observed env a m (.mismatched, knownMismatch env id refused m) [.memoHit id m.offset] := by
  unfold knownMismatch
  dsimp only
  rw [Machine.recordNamed_eq]
  refine observed_of_balanced rfl (.memoHit (Nat.le_refl _) .nil) ?_
  exact ⟨rfl, rfl, rfl, rfl, Nat.le_refl _, rfl⟩

/-- The events of a body go between those of its invocation. -/
theorem exists_observed_body {id : RuleId} {definition : Rule V} {key? : Option MemoKey}
    (h : Observed env a (enterRule id definition m) o trace)
    (hmatched : o.1 = .matched → m.offset ≤ o.2.offset)
    (hmismatched : o.1 = .mismatched → o.2.offset = m.offset) :
    ∃ trace, Observed env (a + 1) m (body env id definition key? (fun _ => o) m) trace := by
  unfold body
  rcases o with ⟨_ | _ | error, inside⟩
  · refine ⟨.enter id m.offset :: (trace ++ [.exit id inside.offset true]),
      h.call rfl (hmatched rfl) (fun hback : true = false => nomatch hback) ?_⟩
    dsimp only
    rw [contribute_eq]
    rfl
  · refine ⟨.enter id m.offset :: (trace ++ [.exit id inside.offset false]),
      h.call rfl (Nat.le_of_eq (hmismatched rfl).symm) (fun _ => hmismatched rfl) ?_⟩
    dsimp only
    rw [Machine.recordNamed_eq, Machine.remember_eq]
    rfl
  · exact ⟨_, h.abort rfl⟩

end Eval

/-- What is observed of an evaluation. -/
theorem Derives.exists_observed (h : Derives env a task m o made) (hm : m.Valid env) :
    ∃ trace, Observed env a m o trace := by
  induction h with
  | @terminal a e m hterminal =>
      rcases Eval.exists_observed_terminal a e m with ⟨trace, htrace⟩
      exact ⟨trace, htrace.rewinding⟩
  | action => exact ⟨[], (Eval.observed_runAction _ _ _ _).rewinding⟩
  | seq hitems ih | star hmany ih =>
      rcases ih hm with ⟨trace, htrace⟩
      exact ⟨trace, .rewinding (htrace.congr rfl rfl rfl rfl)⟩
  | done | no_alternative | unknown | limit => exact ⟨[], .none rfl⟩
  | @act_next a start inherited action items previous synthetic m left o made hact hrest ih =>
      have hframe : m.Frame env left := Eval.frame_runAction hm hact
      have hfirst : Observed env a m _ [] :=
        Eval.observed_runAction action previous synthetic m
      rw [hact] at hfirst
      rcases ih hframe.valid with ⟨later, hlater⟩
      exact ⟨later, hfirst.append rfl hframe.offset_le hframe.depth hlater⟩
  | act_last hends => exact ⟨[], Eval.observed_runAction _ _ _ _⟩
  | @part_next a start inherited item items previous synthetic m left o made later hitem hpart
      hrest ihpart ihrest =>
      have hframe : Machine.Frame env { m with committed := inherited || start < m.offset } left :=
        hpart.framed ⟨hm.within, hm.vars⟩
      rcases ihpart ⟨hm.within, hm.vars⟩ with ⟨first, hfirst⟩
      rcases ihrest hframe.valid with ⟨rest, hrest⟩
      have hfirst : Observed env a m (.matched, left) first := hfirst.congr rfl rfl rfl rfl
      exact ⟨first ++ rest, hfirst.append rfl hframe.offset_le hframe.depth hrest⟩
  | part_last hitem hpart hends ih =>
      rcases ih ⟨hm.within, hm.vars⟩ with ⟨trace, htrace⟩
      exact ⟨trace, htrace.congr rfl rfl rfl rfl⟩
  | choice_once honce hround ih =>
      rcases ih hm with ⟨trace, htrace⟩
      exact ⟨trace, .rewinding htrace⟩
  | choice_first htwo hround hends ih =>
      rcases ih ⟨hm.within, hm.vars⟩ with ⟨trace, htrace⟩
      exact ⟨trace, .rewinding (htrace.congr rfl rfl rfl rfl)⟩
  | @choice_second a items m left o made later htwo hround hnoted hagain ihround ihagain =>
      have hfirst : (Eval.openRound m).Frame env left := hround.framed ⟨hm.within, hm.vars⟩
      have hundo : m.Frame env (Eval.undoRound m left) := hfirst.undoRound htwo
      rcases ihround ⟨hm.within, hm.vars⟩ with ⟨first, hround⟩
      rcases ihagain hundo.valid with ⟨second, hagain⟩
      have hround : Observed env a m (.mismatched, Eval.undoRound m left) first :=
        hround.congr rfl rfl rfl rfl
      exact ⟨first ++ second,
        .rewinding (hround.append rfl hundo.offset_le hundo.depth hagain)⟩
  | @alternative_next a item items m left o made later hmore hfirst hrest ihfirst ihrest =>
      have hframe : m.Frame env left := hfirst.framed hm
      have hback : m.Frame env left.backtrack := hframe.observe _ _
      rcases ihfirst hm with ⟨first, hfirst⟩
      rcases ihrest hback.valid with ⟨rest, hrest⟩
      have hstep := hfirst.backtrack hframe.offset_le hframe.depth
      exact ⟨_, hstep.append rfl hback.offset_le hback.depth hrest⟩
  | alternative_last hends hfirst ih => exact ih hm
  | @many_next a body m left o made later hfirst hless hrest ihfirst ihrest =>
      have hframe : Machine.Frame env { m with committed := false } left :=
        hfirst.framed ⟨hm.within, hm.vars⟩
      rcases ihfirst ⟨hm.within, hm.vars⟩ with ⟨first, hfirst⟩
      rcases ihrest hframe.valid with ⟨rest, hrest⟩
      have hfirst : Observed env a m (.matched, left) first := hfirst.congr rfl rfl rfl rfl
      exact ⟨first ++ rest, hfirst.append rfl hframe.offset_le hframe.depth hrest⟩
  | many_last hfirst hends ih =>
      rcases ih ⟨hm.within, hm.vars⟩ with ⟨trace, htrace⟩
      exact ⟨trace, htrace.congr rfl rfl (Eval.isAborted_accepted _)
        (congrArg Machine.watched (Eval.snd_accepted _))⟩
  | @plus_next a body m left o made later hfirst hless hrest ihfirst ihrest =>
      have hframe : m.Frame env left := hfirst.framed hm
      rcases ihfirst hm with ⟨first, hfirst⟩
      rcases ihrest hframe.valid with ⟨rest, hrest⟩
      have hall := hfirst.append rfl hframe.offset_le hframe.depth hrest
      exact ⟨first ++ rest, .rewinding (hall.congr rfl rfl rfl rfl)⟩
  | plus_last hfirst hends ih =>
      rcases ih hm with ⟨trace, htrace⟩
      exact ⟨trace, .rewinding (htrace.congr rfl rfl rfl rfl)⟩
  | optional hbody ih =>
      rcases ih ⟨hm.within, hm.vars⟩ with ⟨trace, htrace⟩
      refine ⟨trace, .rewinding ?_⟩
      rw [Eval.optional_eq]
      refine htrace.congr rfl rfl (Eval.isAborted_accepted _) ?_
      rw [Eval.snd_keepingCommitment, Eval.snd_accepted]
      rfl
  | notAhead hbody ih | ahead hbody ih =>
      rcases ih ⟨hm.within, hm.vars⟩ with ⟨trace, htrace⟩
      exact ⟨trace, .rewinding (htrace.congr rfl rfl (Eval.isAborted_aheadVerdict _ _) rfl)⟩
  | @label a name body m o made hbody ih =>
      rcases ih ⟨hm.within, hm.vars⟩ with ⟨trace, htrace⟩
      rcases Eval.exists_snd_labeled env name (fun _ => o) m with ⟨_, _, hleft⟩
      refine ⟨trace, .rewinding (htrace.congr rfl rfl ?_ ?_)⟩
      · rw [Eval.fst_labeled]
      · rw [hleft]
        rfl
  | rule hcall ih =>
      rcases ih hm with ⟨trace, htrace⟩
      exact ⟨trace, .rewinding htrace⟩
  | @hit a id definition refused m hdefinition hknown =>
      exact ⟨_, Eval.observed_knownMismatch id refused m⟩
  | @body a id definition m o made hdefinition hknown hbody ih =>
      have hcount : Observed env (a + 1) m (.matched, Eval.countMiss env definition m) [] :=
        Eval.observed_countMiss definition m
      generalize hmiss : Eval.countMiss env definition m = miss at hbody ih hcount ⊢
      obtain rfl : _ = miss := (Eval.countMiss_eq env definition m).symm.trans hmiss
      have hstart : (Eval.enterRule id definition
          { m with stats := (Eval.countMiss env definition m).stats }).Valid env :=
        ⟨hm.within, m.vars.valid_enter⟩
      have hback : o.1 = .mismatched → o.2.offset = m.offset := by
        rcases o with ⟨verdict, left⟩
        rintro rfl
        exact congrArg Cursor.offset (Eval.expr_mismatched hbody.run_eq).1
      rcases ih hstart with ⟨inside, hinside⟩
      rcases Eval.exists_observed_body hinside (hbody.offset_le hstart) hback with ⟨trace, htrace⟩
      exact ⟨trace, hcount.append rfl (Nat.le_refl _) rfl htrace⟩

/-- What is observed of a pass. -/
theorem exists_observed_runPass (env : Env V) (root : RuleId) :
    ∃ trace,
      (runPass env root).2.events.reverse = (passStart env).events.reverse ++ trace ∧
      BrokenOff env.pass.errorOffset? env.settings.maxDepth 0 trace ∧
      ((runPass env root).1.isAborted = false →
        Balanced env.pass.errorOffset? env.settings.maxDepth 0 trace ∧
          (runPass env root).2.stats.Tallies trace) := by
  rcases exists_passMakes env root with ⟨made, hmade⟩
  rcases hmade.exists_observed (valid_passStart env) with ⟨trace, htrace⟩
  have hoffset : (passStart env).offset = 0 := by
    rw [passStart_eq]
    rfl
  refine ⟨trace, ?_, hoffset ▸ htrace.brokenOff, fun hends => ⟨hoffset ▸ htrace.balanced hends, ?_⟩⟩
  · rw [htrace.events_eq, List.reverse_append, List.reverse_reverse]
  · have hadds := htrace.adds hends
    rw [passStart_eq] at hadds
    exact Stats.Adds.tallies hadds

end Peg
