import Mathlib
import Peg.Proofs.Parse.Derivation
import Peg.Proofs.Report.Summary

/-!
# What a failed parse reports

The misses of an evaluation are the terminals that did not match in it and the rules and
labels that failed, outside of lookaheads, in the order this happened.  If no mismatches
are remembered, a failed parse is reported where the furthest of them happened, with what
was tried there.

Main results:

- `Derives.exists_misses`: every evaluation has misses.
- `Misses.offset_le`: they are in the text, or at its end.
- `Misses.frontier_eq`: the frontier gains their summary.
- `reports_of_failed`: a failed parse reports the misses of its first pass.
-/

namespace Peg

open Text Eval

variable {V : Type}

/-! ## The misses of an evaluation -/

/-- The misses of a rule or label, given its verdict and those in it. -/
def Verdict.closeMisses : Verdict → Expected V → Nat → List (Miss V) → List (Miss V)
  | .mismatched, name, start, missed => Miss.close name start missed
  | _, _, _, missed => missed

/-- The misses of an evaluation that remembers no mismatches, earliest first. -/
inductive Misses (env : Env V) : Nat → Task V → Machine V → List (Miss V) → Prop
  | terminal {a : Nat} {e : Expr V} {m : Machine V} {cursor : Cursor}
      (hterminal : e.isTerminal = true) (hconsume : consume? e m.cursor = some cursor) :
      Misses env a (.expr e) m []
  | missing {a : Nat} {e : Expr V} {m : Machine V} (hterminal : e.isTerminal = true)
      (hconsume : consume? e m.cursor = none) :
      Misses env a (.expr e) m [⟨.terminal e, m.offset, []⟩]
  -- An action that refuses is not a miss; the rule or label around it may become one.
  | action {a : Nat} {action : Action V} {m : Machine V} :
      Misses env a (.expr (.action action)) m []
  | seq {a : Nat} {items : List (Expr V)} {m : Machine V} {missed : List (Miss V)}
      (hitems : Misses env a (.items m.offset m.committed items (Span.emptyAt m.offset) false) m
        missed) :
      Misses env a (.expr (.seq items)) m missed
  | done {a start : Nat} {inherited : Bool} {previous : Span} {synthetic : Bool}
      {m : Machine V} : Misses env a (.items start inherited [] previous synthetic) m []
  | act_next {a start : Nat} {inherited : Bool} {action : Action V} {items : List (Expr V)}
      {previous : Span} {synthetic : Bool} {m left : Machine V} {missed : List (Miss V)}
      (hact : runAction env action previous synthetic m = (.matched, left))
      (hrest : Misses env a (.items start inherited items previous synthetic) left missed) :
      Misses env a (.items start inherited (.action action :: items) previous synthetic) m missed
  | act_last {a start : Nat} {inherited : Bool} {action : Action V} {items : List (Expr V)}
      {previous : Span} {synthetic : Bool} {m : Machine V}
      (hends : (runAction env action previous synthetic m).1 ≠ .matched) :
      Misses env a (.items start inherited (.action action :: items) previous synthetic) m []
  | part_next {a start : Nat} {inherited : Bool} {item : Expr V} {items : List (Expr V)}
      {previous : Span} {synthetic : Bool} {m left : Machine V} {missed later : List (Miss V)}
      (hitem : item.isAction = false)
      (hpart : Misses env a (.expr item) { m with committed := inherited || start < m.offset }
        missed)
      (hmatched : (Task.expr item).run env a
        { m with committed := inherited || start < m.offset } = (.matched, left))
      (hrest : Misses env a (.items start inherited items ⟨m.offset, left.offset⟩
        (Span.isEmpty ⟨m.offset, left.offset⟩ && m.inserted < left.inserted)) left later) :
      Misses env a (.items start inherited (item :: items) previous synthetic) m (missed ++ later)
  | part_last {a start : Nat} {inherited : Bool} {item : Expr V} {items : List (Expr V)}
      {previous : Span} {synthetic : Bool} {m : Machine V} {missed : List (Miss V)}
      (hitem : item.isAction = false)
      (hpart : Misses env a (.expr item) { m with committed := inherited || start < m.offset }
        missed)
      (hends : ((Task.expr item).run env a
        { m with committed := inherited || start < m.offset }).1 ≠ .matched) :
      Misses env a (.items start inherited (item :: items) previous synthetic) m missed
  | choice {a : Nat} {items : List (Expr V)} {m : Machine V} {missed : List (Miss V)}
      (hitems : Misses env a (.alternatives items) m missed) :
      Misses env a (.expr (.choice items)) m missed
  | no_alternative {a : Nat} {m : Machine V} : Misses env a (.alternatives []) m []
  | alternative_next {a : Nat} {item : Expr V} {items : List (Expr V)} {m left : Machine V}
      {missed later : List (Miss V)} (hmore : items ≠ [])
      (hfirst : Misses env a (.expr item) m missed)
      (hmismatched : (Task.expr item).run env a m = (.mismatched, left))
      (hrest : Misses env a (.alternatives items) left.backtrack later) :
      Misses env a (.alternatives (item :: items)) m (missed ++ later)
  | alternative_last {a : Nat} {item : Expr V} {items : List (Expr V)} {m : Machine V}
      {missed : List (Miss V)} (hfirst : Misses env a (.expr item) m missed)
      (hends : ((Task.expr item).run env a m).1 = .mismatched → items = []) :
      Misses env a (.alternatives (item :: items)) m missed
  | star {a : Nat} {body : Expr V} {m : Machine V} {missed : List (Miss V)}
      (hmany : Misses env a (.many body) m missed) : Misses env a (.expr (.star body)) m missed
  | many_next {a : Nat} {body : Expr V} {m left : Machine V} {missed later : List (Miss V)}
      (hfirst : Misses env a (.expr body) { m with committed := false } missed)
      (hmatched : (Task.expr body).run env a { m with committed := false } = (.matched, left))
      (hless : remaining env left < remaining env m)
      (hrest : Misses env a (.many body) left later) :
      Misses env a (.many body) m (missed ++ later)
  | many_last {a : Nat} {body : Expr V} {m : Machine V} {o : Verdict × Machine V}
      {missed : List (Miss V)}
      (hfirst : Misses env a (.expr body) { m with committed := false } missed)
      (hrun : (Task.expr body).run env a { m with committed := false } = o)
      (hends : o.1 = .matched → ¬ remaining env o.2 < remaining env m) :
      Misses env a (.many body) m missed
  | plus_next {a : Nat} {body : Expr V} {m left : Machine V} {missed later : List (Miss V)}
      (hfirst : Misses env a (.expr body) m missed)
      (hmatched : (Task.expr body).run env a m = (.matched, left))
      (hless : remaining env left < remaining env m)
      (hrest : Misses env a (.many body) left later) :
      Misses env a (.expr (.plus body)) m (missed ++ later)
  | plus_last {a : Nat} {body : Expr V} {m : Machine V} {o : Verdict × Machine V}
      {missed : List (Miss V)} (hfirst : Misses env a (.expr body) m missed)
      (hrun : (Task.expr body).run env a m = o)
      (hends : o.1 = .matched → ¬ remaining env o.2 < remaining env m) :
      Misses env a (.expr (.plus body)) m missed
  | optional {a : Nat} {body : Expr V} {m : Machine V} {missed : List (Miss V)}
      (hbody : Misses env a (.expr body) { m with committed := false } missed) :
      Misses env a (.expr (.optional body)) m missed
  -- Whatever a lookahead misses is left out.
  | notAhead {a : Nat} {body : Expr V} {m : Machine V} {missed : List (Miss V)}
      (hbody : Misses env a (.expr body) (openProbe m) missed) :
      Misses env a (.expr (.notAhead body)) m []
  | ahead {a : Nat} {body : Expr V} {m : Machine V} {missed : List (Miss V)}
      (hbody : Misses env a (.expr body) (openProbe m) missed) :
      Misses env a (.expr (.ahead body)) m []
  | label {a : Nat} {name : String} {body : Expr V} {m : Machine V} {missed : List (Miss V)}
      (hbody : Misses env a (.expr body) (openLabel name m) missed) :
      Misses env a (.expr (.label name body)) m
        (((Task.expr body).run env a (openLabel name m)).1.closeMisses (.label name) m.offset
          missed)
  | rule {a : Nat} {id : RuleId} {m : Machine V} {missed : List (Miss V)}
      (hcall : Misses env a (.call id) m missed) : Misses env a (.expr (.rule id)) m missed
  | unknown {a : Nat} {id : RuleId} {m : Machine V} (hnone : env.grammar.rule? id = none) :
      Misses env a (.call id) m []
  | limit {id : RuleId} {definition : Rule V} {m : Machine V}
      (hdefinition : env.grammar.rule? id = some definition) : Misses env 0 (.call id) m []
  | body {a : Nat} {id : RuleId} {definition : Rule V} {m : Machine V} {missed : List (Miss V)}
      (hdefinition : env.grammar.rule? id = some definition)
      (hbody : Misses env a (.expr definition.body) (enterRule id definition m) missed) :
      Misses env (a + 1) (.call id) m
        (((Task.expr definition.body).run env a (enterRule id definition m)).1.closeMisses
          (.rule id) m.offset missed)

variable {env : Env V} {a : Nat} {task : Task V} {m : Machine V} {o : Verdict × Machine V}
variable {made : List StandIn} {missed : List (Miss V)}

/-- In a first pass alternatives are tried once. -/
theorem takesTwoRounds_first (hpass : env.pass = .first) (m : Machine V) :
    takesTwoRounds env m = false := by
  simp [takesTwoRounds, hpass, Pass.isRepair]

/-- Every evaluation has misses. -/
theorem Derives.exists_misses (hpass : env.pass = .first)
    (hmemoization : env.settings.memoization = false) (h : Derives env a task m o made) :
    ∃ missed, Misses env a task m missed := by
  induction h with
  | @terminal a e m hterminal =>
      cases hconsume : consume? e m.cursor with
      | some cursor => exact ⟨_, .terminal hterminal hconsume⟩
      | none => exact ⟨_, .missing hterminal hconsume⟩
  | action => exact ⟨_, .action⟩
  | seq hitems ih =>
      rcases ih with ⟨missed, hmissed⟩
      exact ⟨_, .seq hmissed⟩
  | done => exact ⟨_, .done⟩
  | act_next hact hrest ih =>
      rcases ih with ⟨missed, hmissed⟩
      exact ⟨_, .act_next hact hmissed⟩
  | act_last hends => exact ⟨_, .act_last hends⟩
  | part_next hitem hpart hrest ihpart ihrest =>
      rcases ihpart with ⟨missed, hmissed⟩
      rcases ihrest with ⟨later, hlater⟩
      exact ⟨_, .part_next hitem hmissed hpart.run_eq hlater⟩
  | part_last hitem hpart hends ih =>
      rcases ih with ⟨missed, hmissed⟩
      exact ⟨_, .part_last hitem hmissed (hpart.run_eq ▸ hends)⟩
  | choice_once honce hround ih =>
      rcases ih with ⟨missed, hmissed⟩
      exact ⟨_, .choice hmissed⟩
  | @choice_first a items m o made htwo hround hends ih =>
      rw [takesTwoRounds_first hpass] at htwo
      cases htwo
  | @choice_second a items m left o made later htwo hround hnoted hagain ihround ihagain =>
      rw [takesTwoRounds_first hpass] at htwo
      cases htwo
  | no_alternative => exact ⟨_, .no_alternative⟩
  | alternative_next hmore hfirst hrest ihfirst ihrest =>
      rcases ihfirst with ⟨missed, hmissed⟩
      rcases ihrest with ⟨later, hlater⟩
      exact ⟨_, .alternative_next hmore hmissed hfirst.run_eq hlater⟩
  | alternative_last hends hfirst ih =>
      rcases ih with ⟨missed, hmissed⟩
      exact ⟨_, .alternative_last hmissed (hfirst.run_eq ▸ hends)⟩
  | star hmany ih =>
      rcases ih with ⟨missed, hmissed⟩
      exact ⟨_, .star hmissed⟩
  | many_next hfirst hless hrest ihfirst ihrest =>
      rcases ihfirst with ⟨missed, hmissed⟩
      rcases ihrest with ⟨later, hlater⟩
      exact ⟨_, .many_next hmissed hfirst.run_eq hless hlater⟩
  | many_last hfirst hends ih =>
      rcases ih with ⟨missed, hmissed⟩
      exact ⟨_, .many_last hmissed hfirst.run_eq hends⟩
  | plus_next hfirst hless hrest ihfirst ihrest =>
      rcases ihfirst with ⟨missed, hmissed⟩
      rcases ihrest with ⟨later, hlater⟩
      exact ⟨_, .plus_next hmissed hfirst.run_eq hless hlater⟩
  | plus_last hfirst hends ih =>
      rcases ih with ⟨missed, hmissed⟩
      exact ⟨_, .plus_last hmissed hfirst.run_eq hends⟩
  | optional hbody ih =>
      rcases ih with ⟨missed, hmissed⟩
      exact ⟨_, .optional hmissed⟩
  | notAhead hbody ih =>
      rcases ih with ⟨missed, hmissed⟩
      exact ⟨_, .notAhead hmissed⟩
  | ahead hbody ih =>
      rcases ih with ⟨missed, hmissed⟩
      exact ⟨_, .ahead hmissed⟩
  | label hbody ih =>
      rcases ih with ⟨missed, hmissed⟩
      exact ⟨_, .label hmissed⟩
  | rule hcall ih =>
      rcases ih with ⟨missed, hmissed⟩
      exact ⟨_, .rule hmissed⟩
  | unknown hnone => exact ⟨_, .unknown hnone⟩
  | limit hdefinition => exact ⟨_, .limit hdefinition⟩
  | hit hdefinition hknown =>
      rw [known?_eq_none hmemoization] at hknown
      cases hknown
  | body hdefinition hknown hbody ih =>
      rw [countMiss_of_off hmemoization] at ih
      rcases ih with ⟨missed, hmissed⟩
      exact ⟨_, .body hdefinition hmissed⟩

/-! ## Where misses are -/

/-- A rule or label that closes over its misses adds one that is no further on. -/
theorem Verdict.offset_le_of_mem_closeMisses {verdict : Verdict} {name : Expected V}
    {start stop : Nat} (hstart : start ≤ stop) (h : ∀ miss ∈ missed, miss.offset ≤ stop) :
    ∀ miss ∈ verdict.closeMisses name start missed, miss.offset ≤ stop := by
  cases verdict with
  | mismatched =>
      exact List.forall_mem_append.2
        ⟨List.forall_mem_map.2 h, List.forall_mem_singleton.2 hstart⟩
  | matched | aborted => exact h

/-- Misses are in the text, or at its end. -/
theorem Misses.offset_le (h : Misses env a task m missed) (hm : m.Valid env) :
    ∀ miss ∈ missed, miss.offset ≤ byteSize env.source.text := by
  induction h with
  | terminal | action | done | act_last | no_alternative | notAhead | ahead | unknown | limit =>
      exact List.forall_mem_nil _
  | missing => exact List.forall_mem_singleton.2 (Cursor.Within.offset_le hm.within)
  | seq hitems ih | choice hitems ih | star hitems ih | rule hitems ih => exact ih hm
  | part_last hitem hpart hends ih | many_last hpart hrun hends ih | optional hpart ih =>
      exact ih ⟨hm.within, hm.vars⟩
  | act_next hact hrest ih => exact ih (frame_runAction hm hact).valid
  | @part_next a start inherited item items previous synthetic m left missed later hitem hpart
      hmatched hrest ihpart ihrest =>
      have hstart : Machine.Valid env { m with committed := inherited || start < m.offset } :=
        ⟨hm.within, hm.vars⟩
      have hframe := Task.framed_expr hstart hmatched
      exact List.forall_mem_append.2 ⟨ihpart hstart, ihrest (Machine.Frame.valid hframe)⟩
  | @alternative_next a item items m left missed later hmore hfirst hmismatched hrest ihfirst
      ihrest =>
      have hframe : m.Frame env left := Task.framed_expr hm hmismatched
      exact List.forall_mem_append.2
        ⟨ihfirst hm, ihrest ⟨hframe.valid.within, hframe.valid.vars⟩⟩
  | alternative_last hfirst hends ih | plus_last hfirst hrun hends ih => exact ih hm
  | @many_next a body m left missed later hfirst hmatched hless hrest ihfirst ihrest =>
      have hstart : Machine.Valid env { m with committed := false } := ⟨hm.within, hm.vars⟩
      have hframe := Task.framed_expr hstart hmatched
      exact List.forall_mem_append.2 ⟨ihfirst hstart, ihrest (Machine.Frame.valid hframe)⟩
  | plus_next hfirst hmatched hless hrest ihfirst ihrest =>
      have hframe := Task.framed_expr hm hmatched
      exact List.forall_mem_append.2 ⟨ihfirst hm, ihrest (Machine.Frame.valid hframe)⟩
  | label hbody ih =>
      exact Verdict.offset_le_of_mem_closeMisses (Cursor.Within.offset_le hm.within)
        (ih ⟨hm.within, hm.vars⟩)
  | @body a id definition m missed hdefinition hbody ih =>
      exact Verdict.offset_le_of_mem_closeMisses (Cursor.Within.offset_le hm.within)
        (ih ⟨hm.within, m.vars.valid_enter⟩)

/-! ## The frontier after some misses -/

/-- The frontier of a machine after misses that happened from it on. -/
def Machine.frontierAfter (env : Env V) (m : Machine V) (missed : List (Miss V)) : Frontier V :=
  if m.recording env then m.frontier ++ Miss.summary missed else m.frontier

namespace Machine

variable {left : Machine V} {later : List (Miss V)}

/-- Whether failures are recorded is given back as it was found. -/
theorem Frame.recording_eq (h : m.Frame env left) : left.recording env = m.recording env := by
  rw [recording, recording, h.probes]

/-- Where failures are recorded, the frontier gains the summary of the misses. -/
theorem frontierAfter_of_recording (h : m.recording env = true) (missed : List (Miss V)) :
    m.frontierAfter env missed = m.frontier ++ Miss.summary missed :=
  if_pos h

/-- Where failures are not recorded, it gains nothing. -/
theorem frontierAfter_of_not_recording (h : m.recording env = false) (missed : List (Miss V)) :
    m.frontierAfter env missed = m.frontier :=
  if_neg (Bool.eq_false_iff.1 h)

@[simp] theorem frontierAfter_nil (m : Machine V) : m.frontierAfter env [] = m.frontier := by
  unfold frontierAfter
  rw [Miss.summary_nil, Frontier.append_empty, ite_self]

/-- In a lookahead nothing is noted. -/
@[simp] theorem frontierAfter_openProbe (m : Machine V) (missed : List (Miss V)) :
    (Eval.openProbe m).frontierAfter env missed = m.frontier := by
  have hprobing : (Eval.openProbe m).recording env = false := by
    simp [recording, Eval.openProbe]
  exact frontierAfter_of_not_recording hprobing missed

/-- Only the frontier, and whether failures are recorded, decide what it becomes. -/
theorem frontierAfter_congr (hrecording : left.recording env = m.recording env)
    (h : left.frontier = m.frontier) (missed : List (Miss V)) :
    left.frontierAfter env missed = m.frontierAfter env missed := by
  rw [frontierAfter, frontierAfter, hrecording, h]

/-- Misses in a stretch and misses behind it. -/
theorem frontierAfter_append (hrecording : left.recording env = m.recording env)
    (h : left.frontier = m.frontierAfter env missed) (later : List (Miss V)) :
    left.frontierAfter env later = m.frontierAfter env (missed ++ later) := by
  by_cases hrec : m.recording env = true
  · rw [frontierAfter_of_recording hrec] at h ⊢
    rw [frontierAfter_of_recording (hrecording.trans hrec), h, Miss.summary_append,
      Frontier.append_assoc]
  · have hnot := eq_false_of_ne_true hrec
    rw [frontierAfter_of_not_recording hnot] at h ⊢
    rw [frontierAfter_of_not_recording (hrecording.trans hnot), h]

/-- A failure that is recorded is a miss of its own. -/
theorem frontier_recordFailure (m : Machine V) (offset : Nat) (expected : Expected V) :
    (m.recordFailure env offset expected).frontier =
      m.frontierAfter env [⟨expected, offset, []⟩] := by
  unfold recordFailure
  split
  next hrec =>
      rw [frontierAfter_of_recording hrec, Miss.summary_singleton]
      exact Frontier.record_eq_append _ _ _
  next hrec => exact (frontierAfter_of_not_recording (eq_false_of_ne_true hrec) _).symm

/-- A rule or label that failed stands for what was tried in it where it started. -/
theorem frontier_noteFailure_eq (hrecording : left.recording env = m.recording env)
    (h : left.frontier = m.frontierAfter env missed) (name : Expected V) :
    (Eval.noteFailure env m left name).frontier =
      m.frontierAfter env (Miss.close name m.offset missed) := by
  by_cases hrec : m.recording env = true
  · rw [frontierAfter_of_recording hrec] at h ⊢
    rw [Eval.frontier_noteFailure (hrecording.trans hrec), h, Frontier.recordNamed_append,
      Miss.summary_close]
  · have hnot := eq_false_of_ne_true hrec
    rw [frontierAfter_of_not_recording hnot] at h ⊢
    rw [Eval.frontier_noteFailure_of_not_recording (hrecording.trans hnot), h]

end Machine

/-! ## The frontier is the summary of the misses -/

namespace Eval

/-- Going back after a mismatch takes nothing out of the frontier. -/
@[simp] theorem frontier_rewinding (eval : Eval V) (m : Machine V) :
    (rewinding eval m).2.frontier = (eval m).2.frontier := by
  rcases exists_snd_rewinding eval m with ⟨_, _, hleft⟩
  rw [hleft]

/-- An action leaves the frontier alone. -/
@[simp] theorem frontier_runAction (action : Action V) (span : Span) (synthetic : Bool)
    (m : Machine V) : (runAction env action span synthetic m).2.frontier = m.frontier := by
  rcases exists_snd_runAction env action span synthetic m with ⟨_, _, _, hleft⟩
  rw [hleft]

/-- In the first pass a terminal that does not match is a miss. -/
theorem frontier_missing (hpass : env.pass = .first) (e : Expr V) (m : Machine V) :
    (missing env e m).2.frontier = m.frontierAfter env [⟨.terminal e, m.offset, []⟩] := by
  rw [← Machine.frontier_recordFailure, missing, hpass]

/-- Closing a label. -/
theorem frontier_labeled {name : String} {eval : Eval V}
    (hframe : Leaves ((openLabel name m).Frame env) (eval (openLabel name m)))
    (h : (eval (openLabel name m)).2.frontier = m.frontierAfter env missed) :
    (labeled env name eval m).2.frontier =
      m.frontierAfter env
        ((eval (openLabel name m)).1.closeMisses (.label name) m.offset missed) := by
  rw [labeled_eq]
  generalize eval (openLabel name m) = o at hframe h ⊢
  rcases o with ⟨_ | _ | _, left⟩
  · exact h
  · have hframe : (openLabel name m).Frame env left := hframe
    have hrecording : (closeLabel left).recording env = m.recording env := hframe.recording_eq
    exact Machine.frontier_noteFailure_eq hrecording h (.label name)
  · exact h

/-- Leaving a rule. -/
theorem frontier_body {id : RuleId} {definition : Rule V} {eval : Eval V}
    (hframe : Leaves ((enterRule id definition m).Frame env) (eval (enterRule id definition m)))
    (h : (eval (enterRule id definition m)).2.frontier = m.frontierAfter env missed) :
    (body env id definition none eval m).2.frontier =
      m.frontierAfter env
        ((eval (enterRule id definition m)).1.closeMisses (.rule id) m.offset missed) := by
  generalize heval : eval (enterRule id definition m) = o at hframe h ⊢
  rcases o with ⟨_ | _ | error, left⟩
  · unfold body
    rw [heval]
    dsimp only
    rw [contribute_eq]
    exact h
  · have hframe : (enterRule id definition m).Frame env left := hframe
    have hrecording : (leaveRule definition m left).recording env = m.recording env :=
      hframe.recording_eq
    rw [body_eq_of_mismatched heval]
    exact Machine.frontier_noteFailure_eq hrecording h (.rule id)
  · unfold body
    rw [heval]
    exact h

end Eval

/-- The frontier gains the summary of the misses. -/
theorem Misses.frontier_eq (hpass : env.pass = .first)
    (hmemoization : env.settings.memoization = false) (h : Misses env a task m missed)
    (hm : m.Valid env) : (task.run env a m).2.frontier = m.frontierAfter env missed := by
  induction h with
  | @terminal a e m cursor hterminal hconsume =>
      rw [Task.run, expr_of_isTerminal hterminal, frontier_rewinding, Eval.terminal, hconsume,
        Machine.frontierAfter_nil]
  | @missing a e m hterminal hconsume =>
      rw [Task.run, expr_of_isTerminal hterminal, frontier_rewinding, Eval.terminal, hconsume]
      exact frontier_missing hpass e m
  | @action a action m =>
      rw [Machine.frontierAfter_nil]
      exact (frontier_rewinding _ m).trans (frontier_runAction action _ _ m)
  | seq hitems ih => exact (frontier_rewinding _ _).trans (ih hm)
  | done => exact (Machine.frontierAfter_nil _).symm
  | @act_next a start inherited action items previous synthetic m left missed hact hrest ih =>
      have hframe := frame_runAction hm hact
      have hleft : left.frontier = m.frontier :=
        (congrArg (·.2.frontier) hact).symm.trans (frontier_runAction action previous synthetic m)
      rw [← Machine.frontierAfter_congr hframe.recording_eq hleft]
      exact (congrArg (·.2.frontier) (runElements_act_next hact)).trans (ih hframe.valid)
  | act_last hends =>
      rw [Machine.frontierAfter_nil]
      exact (congrArg (·.2.frontier) (runElements_act_last hends)).trans
        (frontier_runAction _ _ _ _)
  | @part_next a start inherited item items previous synthetic m left missed later hitem hpart
      hmatched hrest ihpart ihrest =>
      have hstart : Machine.Valid env { m with committed := inherited || start < m.offset } :=
        ⟨hm.within, hm.vars⟩
      have hframe : Machine.Frame env { m with committed := inherited || start < m.offset } left :=
        Task.framed_expr hstart hmatched
      have hrecording : left.recording env = m.recording env := hframe.recording_eq
      have hleft : left.frontier = m.frontierAfter env missed :=
        (congrArg (·.2.frontier) hmatched).symm.trans (ihpart hstart)
      rw [← Machine.frontierAfter_append hrecording hleft, Task.run,
        elements_cons_of_isAction_eq_false hitem]
      exact (congrArg (·.2.frontier) (runElements_part_next hmatched)).trans
        (ihrest hframe.valid)
  | part_last hitem hpart hends ih =>
      rw [Task.run, elements_cons_of_isAction_eq_false hitem]
      exact (congrArg (·.2.frontier) (runElements_part_last rfl hends)).trans
        (ih ⟨hm.within, hm.vars⟩)
  | choice hitems ih =>
      refine (frontier_rewinding _ _).trans ?_
      rw [choice_once (takesTwoRounds_first hpass _)]
      exact ih hm
  | no_alternative => exact (Machine.frontierAfter_nil _).symm
  | @alternative_next a item items m left missed later hmore hfirst hmismatched hrest ihfirst
      ihrest =>
      have hframe : m.Frame env left := Task.framed_expr hm hmismatched
      have hleft : left.backtrack.frontier = m.frontierAfter env missed :=
        (congrArg (·.2.frontier) hmismatched).symm.trans (ihfirst hm)
      have hrecording : left.backtrack.recording env = m.recording env := hframe.recording_eq
      rw [← Machine.frontierAfter_append hrecording hleft]
      refine (congrArg (·.2.frontier) (alternatives_next ?_ hmismatched)).trans
        (ihrest ⟨hframe.valid.within, hframe.valid.vars⟩)
      simpa using hmore
  | @alternative_last a item items m missed hfirst hends ih =>
      have hlast : (Task.alternatives (item :: items)).run env a m = (Task.expr item).run env a m :=
        alternatives_last rfl fun hmismatched => by
          rw [hends hmismatched]
          rfl
      rw [hlast]
      exact ih hm
  | star hmany ih => exact (frontier_rewinding _ _).trans (ih hm)
  | @many_next a body m left missed later hfirst hmatched hless hrest ihfirst ihrest =>
      have hstart : Machine.Valid env { m with committed := false } := ⟨hm.within, hm.vars⟩
      have hframe : Machine.Frame env { m with committed := false } left :=
        Task.framed_expr hstart hmatched
      have hrecording : left.recording env = m.recording env := hframe.recording_eq
      have hleft : left.frontier = m.frontierAfter env missed :=
        (congrArg (·.2.frontier) hmatched).symm.trans (ihfirst hstart)
      rw [← Machine.frontierAfter_append hrecording hleft]
      exact (congrArg (·.2.frontier) (Eval.many_next hmatched hless)).trans
        (ihrest hframe.valid)
  | many_last hfirst hrun hends ih =>
      refine (congrArg (·.2.frontier) (Eval.many_last hrun hends)).trans ?_
      rw [snd_accepted, ← hrun]
      exact ih ⟨hm.within, hm.vars⟩
  | @plus_next a body m left missed later hfirst hmatched hless hrest ihfirst ihrest =>
      have hframe : m.Frame env left := Task.framed_expr hm hmatched
      have hleft : left.frontier = m.frontierAfter env missed :=
        (congrArg (·.2.frontier) hmatched).symm.trans (ihfirst hm)
      rw [← Machine.frontierAfter_append hframe.recording_eq hleft]
      exact (frontier_rewinding _ m).trans
        ((congrArg (·.2.frontier) (Eval.plus_next hmatched hless)).trans (ihrest hframe.valid))
  | plus_last hfirst hrun hends ih =>
      refine (frontier_rewinding _ _).trans
        ((congrArg (·.2.frontier) (Eval.plus_last hrun hends)).trans ?_)
      rw [snd_keepingCommitment, ← hrun]
      exact ih hm
  | optional hbody ih =>
      refine (frontier_rewinding _ _).trans ?_
      rw [optional_eq, snd_keepingCommitment, snd_accepted]
      exact ih ⟨hm.within, hm.vars⟩
  | @notAhead a body m missed hbody ih | @ahead a body m missed hbody ih =>
      have hinside := ih ⟨hm.within, hm.vars⟩
      rw [Machine.frontierAfter_openProbe] at hinside
      rw [Machine.frontierAfter_nil]
      exact (frontier_rewinding _ m).trans hinside
  | label hbody ih =>
      have hstart := ih ⟨hm.within, hm.vars⟩
      refine (frontier_rewinding _ _).trans ?_
      exact frontier_labeled (Task.framed_expr ⟨hm.within, hm.vars⟩ rfl) hstart
  | rule hcall ih => exact (frontier_rewinding _ _).trans (ih hm)
  | @unknown a id m hnone =>
      rw [Task.run, invoke_unknown env a hnone, Machine.frontierAfter_nil]
  | @limit id definition m hdefinition =>
      rw [Task.run, invoke_zero hdefinition, Machine.frontierAfter_nil]
  | @body a id definition m missed hdefinition hbody ih =>
      have hstart : (enterRule id definition m).Valid env := ⟨hm.within, m.vars.valid_enter⟩
      have hcall : (Task.call id).run env (a + 1) m = _ :=
        invoke_succ_eq_body hmemoization hdefinition a m
      rw [hcall]
      exact frontier_body (Task.framed_expr hstart rfl) (ih hstart)

/-! ## Failed parses -/

/-- The misses of a pass. -/
def PassMisses (env : Env V) (root : RuleId) (missed : List (Miss V)) : Prop :=
  Misses env env.settings.maxDepth (.call root) (passStart env) missed

/-- Every first pass without a memo has some list of misses. -/
theorem exists_passMisses (hpass : env.pass = .first)
    (hmemoization : env.settings.memoization = false) (root : RuleId) :
    ∃ missed, PassMisses env root missed := by
  rcases exists_passMakes env root with ⟨made, hmade⟩
  exact hmade.exists_misses hpass hmemoization

/-- A match that is too short has missed the end of the input. -/
def endMisses : Verdict × Machine V → List (Miss V)
  | (.matched, left) => [⟨.endOfInput, left.offset, []⟩]
  | _ => []

/-- A rule that did not match is one of the misses itself. -/
theorem Misses.ne_nil_of_mismatched (hmemoization : env.settings.memoization = false)
    {id : RuleId} (h : Misses env a (.call id) m missed)
    (hmismatched : ((Task.call id).run env a m).1 = .mismatched) : missed ≠ [] := by
  cases h with
  | unknown hnone =>
      rw [Task.run, invoke_unknown env a hnone] at hmismatched
      cases hmismatched
  | limit hdefinition =>
      rw [Task.run, invoke_zero hdefinition] at hmismatched
      cases hmismatched
  | @body a id definition m missed hdefinition hbody =>
      have hcall : (Task.call id).run env (a + 1) m = _ :=
        invoke_succ_eq_body hmemoization hdefinition a m
      rw [hcall, fst_body] at hmismatched
      have hinside : ((Task.expr definition.body).run env a (enterRule id definition m)).1 =
          .mismatched := hmismatched
      rw [hinside]
      exact List.append_ne_nil_of_right_ne_nil _ (List.cons_ne_nil _ _)

/-- A pass keeps the frame of the machine it starts from. -/
theorem framed_runPass (env : Env V) (root : RuleId) :
    Leaves ((passStart env).Frame env) (runPass env root) :=
  framed_invoke env.settings.maxDepth root _ (valid_passStart env)

/-- The misses of a pass are in the text, or at its end. -/
theorem PassMisses.offset_le {root : RuleId} (h : PassMisses env root missed) :
    ∀ miss ∈ missed ++ endMisses (runPass env root), miss.offset ≤ byteSize env.source.text := by
  refine List.forall_mem_append.2 ⟨Misses.offset_le h (valid_passStart env), ?_⟩
  have hframe := framed_runPass env root
  generalize runPass env root = o at hframe ⊢
  rcases o with ⟨_ | _ | error, left⟩
  · have hframe : (passStart env).Frame env left := hframe
    exact List.forall_mem_singleton.2 (Cursor.Within.offset_le hframe.valid.within)
  · exact List.forall_mem_nil _
  · exact List.forall_mem_nil _

/-- The frontier of a first pass that failed is the summary of its misses. -/
theorem PassMisses.frontier_eq {root : RuleId} (hpass : env.pass = .first)
    (hmemoization : env.settings.memoization = false) (h : PassMisses env root missed) :
    (reportedFrom env (runPass env root)).frontier =
      Miss.summary (missed ++ endMisses (runPass env root)) := by
  have hstart : (passStart env).frontier = .empty := by
    rw [passStart_eq]
    rfl
  have hrecording : (passStart env).recording env = true := by
    rw [passStart_eq]
    simp [Machine.recording, Machine.start, hpass, Pass.isRepair]
  have hfrontier := Misses.frontier_eq hpass hmemoization h (valid_passStart env)
  have hframe := framed_runPass env root
  have hwhole (later : List (Miss V)) :
      (passStart env).frontierAfter env later = Miss.summary later := by
    rw [Machine.frontierAfter_of_recording hrecording, hstart, Frontier.empty_append]
  change (runPass env root).2.frontier = _ at hfrontier
  generalize runPass env root = o at hfrontier hframe ⊢
  rcases o with ⟨_ | _ | error, left⟩
  · have hframe : (passStart env).Frame env left := hframe
    rw [← hwhole, ← Machine.frontierAfter_append hframe.recording_eq hfrontier]
    exact Machine.frontier_recordFailure left left.offset .endOfInput
  · have hnone := congrArg Miss.summary (List.append_nil missed)
    exact (hfrontier.trans (hwhole missed)).trans hnone.symm
  · have hnone := congrArg Miss.summary (List.append_nil missed)
    exact (hfrontier.trans (hwhole missed)).trans hnone.symm

/-- What a failure has to say about the misses of its parse: it is where the furthest of
them happened, which is in the text or at its end, and what is expected are the names of
those that count there, each at its first mention. -/
def Failure.Reports (grammar : Grammar V) (source : Source) (missed : List (Miss V))
    (failure : Failure V) : Prop :=
  ∃ position, (∃ miss ∈ missed, miss.offset = position) ∧
    (∀ miss ∈ missed, miss.offset ≤ position) ∧
    position ≤ byteSize source.text ∧
    failure.position = source.position position ∧
    failure.expected =
      ((Miss.countingAt position missed).map (·.expected.describe grammar)).eraseDups

/-- A failure reports the misses that the frontier sums up, by position, names and the character
found. -/
theorem Failure.reports_of_frontier_eq {m : Machine V} (hne : missed ≠ [])
    (hle : ∀ miss ∈ missed, miss.offset ≤ byteSize env.source.text)
    (h : m.frontier = Miss.summary missed) (recovered? : Option (Recovered V)) (stats : Stats) :
    (failureOf env m recovered? stats).Reports env.grammar env.source missed := by
  rcases Miss.exists_offset_eq_furthest hne with ⟨last, hlast, hoffset⟩
  refine ⟨Miss.furthest missed, ⟨last, hlast, hoffset⟩, fun _ hmiss => Miss.le_furthest hmiss,
    hoffset ▸ hle last hlast, ?_, ?_⟩
  · rw [failureOf, h]
    rfl
  · rw [failureOf, Frontier.labels, h, Miss.summary, List.reverse_reverse, List.map_map]
    rfl

/-- A failed parse that remembers no mismatches reports the misses of its first pass. -/
theorem reports_of_failed {grammar : Grammar V} {settings : Settings} {source : Source}
    {root : RuleId} {failure : Failure V} (hmemoization : settings.memoization = false)
    (h : (execute grammar settings source root).result = .ok (.failed failure)) :
    (∃ missed, PassMisses ⟨grammar, source, settings, .first⟩ root missed) ∧
      ∀ missed, PassMisses ⟨grammar, source, settings, .first⟩ root missed →
        failure.Reports grammar source
          (missed ++ endMisses (runPass ⟨grammar, source, settings, .first⟩ root)) := by
  refine ⟨exists_passMisses rfl hmemoization root, fun missed hmissed => ?_⟩
  rcases exists_failureOf h with ⟨hfailed, recovered?, stats, rfl⟩
  refine Failure.reports_of_frontier_eq ?_ hmissed.offset_le
    (hmissed.frontier_eq rfl hmemoization) recovered? stats
  rcases hfailed with hmismatched | ⟨hmatched, -⟩
  · exact List.append_ne_nil_of_left_ne_nil
      (Misses.ne_nil_of_mismatched hmemoization hmissed hmismatched) _
  · refine List.append_ne_nil_of_right_ne_nil _ ?_
    generalize runPass ⟨grammar, source, settings, .first⟩ root = o at hmatched ⊢
    rcases o with ⟨_ | _ | error, left⟩
    · exact List.cons_ne_nil _ _
    · cases hmatched
    · cases hmatched

/-- Numbers with a sign, added up. -/
def sums : Grammar Nat where
  rules := #[
    ⟨"sum", .seq [.rule ⟨1⟩, .star (.seq [.char '+', .rule ⟨1⟩])], {}⟩,
    ⟨"number", .seq [.optional (.char '-'), .plus (.range '0' '9')], {}⟩]

/-- A sum that breaks off behind its sign: the number stands for the digits tried in it. -/
theorem reports_of_failed_sums :
    ∃ failure,
      (execute sums { memoization := false } (.plain ['1', '+']) ⟨0⟩).result =
        .ok (.failed failure) ∧
      (∃ missed, PassMisses ⟨sums, .plain ['1', '+'], { memoization := false }, .first⟩ ⟨0⟩
        missed) ∧
      ∀ missed,
        PassMisses ⟨sums, .plain ['1', '+'], { memoization := false }, .first⟩ ⟨0⟩ missed →
          failure.Reports sums (.plain ['1', '+'])
            (missed ++ endMisses
              (runPass ⟨sums, .plain ['1', '+'], { memoization := false }, .first⟩ ⟨0⟩)) := by
  have hfailed : (execute sums { memoization := false } (.plain ['1', '+']) ⟨0⟩).result =
      .ok (.failed ⟨⟨2, 0, 2⟩, ["number"], none, none, ⟨3, 0, 0, 0, 0, 2, 0⟩⟩) := by
    cbv
  exact ⟨_, hfailed, reports_of_failed rfl hfailed⟩

end Peg
