import Mathlib
import Peg.Grammar.Draft
import Peg.Proofs.Memo.Transparency
import Peg.Proofs.Parse.FirstPass

/-!
# What remembering mismatches changes in a parse

Remembering mismatches changes nothing of what a parse accepts and produces, in the
first pass or in a repairing one, as long as the rules that ask for it run no actions.
What a failed parse reports also stays the same, provided that no such rule is invoked
both inside and outside of lookahead.  That proviso is needed: a mismatch remembered
inside of lookahead has recorded nothing, and when it is met again outside, what the
rule would have recorded is missing from the report.

Main results:

- `execute_memoization`: verdict, values and parse tree of a parse.
- `runPass_repair_memoization`: verdict and result of a repairing pass.
- `failure_memoization`: position, expected names and found character of a failure.
-/

namespace Peg

open Text Eval

variable {V : Type}

/-! ## Passes -/

/-- With and without a memo a parse starts at the same machine. -/
theorem matches_start (env : Env V) (root : RuleId) (reported : Prop) :
    Matches env root reported (Machine.start env) (Machine.start env) :=
  ⟨⟨_, _, _, _, rfl⟩, memoSound_empty env root reported _, fun _ => .refl _⟩

/-- A pass does alike with and without a memo. -/
theorem alike_runPass (env : Env V) (root : RuleId) {reported : Prop}
    (hfree : env.grammar.MemoActionFree)
    (hreported : reported → env.pass = .first ∧ env.grammar.MemoApart root) :
    Alike (Matches env root reported) (runPass (env.memoizing true) root)
      (runPass (env.memoizing false) root) := by
  have hstart := matches_start env root reported
  have hvalid := valid_start env
  have hinvoke := follows_invoke_memo hfree hreported env.settings.maxDepth .root
  cases hpass : env.pass with
  | first =>
      have hrun : ∀ on, runPass (env.memoizing on) root =
          invoke (env.memoizing on) env.settings.maxDepth root (Machine.start env) := by
        intro on
        simp only [runPass, Env.memoizing, hpass]
        rfl
      rw [hrun, hrun]
      exact hinvoke.alike _ _
        ⟨⟨hvalid.within, hvalid.vars⟩, ⟨hvalid.within, hvalid.vars⟩, rfl, hstart⟩
  | repair errorOffset =>
      have hrun : ∀ on, runPass (env.memoizing on) root =
          invoke (env.memoizing on) env.settings.maxDepth root
            ((Machine.start env).emit (.recoveryPass errorOffset)) := by
        intro on
        simp only [runPass, Env.memoizing, hpass]
        rfl
      rw [hrun, hrun]
      exact hinvoke.alike _ _
        ⟨⟨hvalid.within, hvalid.vars⟩, ⟨hvalid.within, hvalid.vars⟩, rfl,
          ⟨hstart.same.record _ _ _ _ _ _ _ _, hstart.sound, hstart.report⟩⟩

/-! ## A sample grammar -/

/-- A grammar in which a rule may be tried twice at one place, behind an action. -/
def retriedPair : Grammar Nat where
  rules := #[
    ⟨"pair", .seq [.char 'a', .char 'b'], { memoMismatches := true }⟩,
    ⟨"start", .seq [.action fun _ => do Program.push 1; return true,
      .choice [.seq [.rule ⟨0⟩, .char 'c'], .seq [.rule ⟨0⟩, .char 'd'],
        .seq [.char 'a', .endOfInput]]], {}⟩]

theorem memoActionFree_retriedPair : retriedPair.MemoActionFree := by
  intro id rule hrule hmemo
  rcases id with ⟨_ | _ | index⟩
  · refine Grammar.actionFree_of_no_reference hrule ?_ ?_
    · cases hrule
      simp [retriedPair, Expr.subterms, Expr.subtermsOf]
    · cases hrule
      simp [retriedPair, Expr.subterms, Expr.subtermsOf]
  · cases hrule
    cases hmemo
  · cases hrule

/-! ## Repairing passes -/

/-- The environment of a repairing pass, with or without a memo. -/
def Env.repairing (env : Env V) (errorOffset : Nat) (memoization : Bool) : Env V :=
  { env with
    pass := .repair errorOffset
    settings := { env.settings with memoization := memoization } }

/-- In a repairing pass, from whichever offset and with whatever number of repairs
allowed, remembering mismatches changes neither the verdict nor what is made of the
text. -/
theorem runPass_repairing_memoization {env : Env V} (hfree : env.grammar.MemoActionFree)
    (errorOffset : Nat) (root : RuleId)
    (hlimit : ∀ limit position,
      (runPass (env.repairing errorOffset false) root).1 ≠
        .aborted (.recursionLimit limit position)) :
    (runPass (env.repairing errorOffset true) root).1 =
        (runPass (env.repairing errorOffset false) root).1 ∧
      ((∀ error, (runPass (env.repairing errorOffset false) root).1 ≠ .aborted error) →
        recoveredOf (env.repairing errorOffset true) root
            (runPass (env.repairing errorOffset true) root).2 =
          recoveredOf (env.repairing errorOffset false) root
            (runPass (env.repairing errorOffset false) root).2) := by
  have halike : Alike _ (runPass (env.repairing errorOffset true) root)
      (runPass (env.repairing errorOffset false) root) :=
    alike_runPass { env with pass := .repair errorOffset } root hfree False.elim
  generalize runPass (env.repairing errorOffset true) root = outcome at halike ⊢
  generalize runPass (env.repairing errorOffset false) root = outcome' at halike hlimit ⊢
  cases halike with
  | matched h =>
      rcases h.same with ⟨_, _, _, _, rfl⟩
      exact ⟨rfl, fun _ => rfl⟩
  | mismatched h =>
      rcases h.same with ⟨_, _, _, _, rfl⟩
      exact ⟨rfl, fun _ => rfl⟩
  | aborted error l l' => exact ⟨rfl, fun h => absurd rfl (h error)⟩
  | limited outcome limit position l' => exact absurd rfl (hlimit limit position)

/-- A recovery pass that stands in for a missing character, with a memo and without. -/
theorem runPass_repairing_memoization_retriedPair :
    (∀ limit position,
      (runPass (Env.repairing ⟨retriedPair, .plain ['a', 'x'], {}, .first⟩ 1 false) ⟨1⟩).1 ≠
        .aborted (.recursionLimit limit position)) ∧
      (runPass (Env.repairing ⟨retriedPair, .plain ['a', 'x'], {}, .first⟩ 1 true) ⟨1⟩).1 =
        .matched := by
  have hmatched :
      (runPass (Env.repairing ⟨retriedPair, .plain ['a', 'x'], {}, .first⟩ 1 false) ⟨1⟩).1 =
        .matched := by cbv
  have hlimit : ∀ limit position,
      (runPass (Env.repairing ⟨retriedPair, .plain ['a', 'x'], {}, .first⟩ 1 false) ⟨1⟩).1 ≠
        .aborted (.recursionLimit limit position) := by
    intro limit position haborted
    cases hmatched.symm.trans haborted
  have hsame := runPass_repairing_memoization memoActionFree_retriedPair 1 ⟨1⟩ hlimit
  exact ⟨hlimit, hsame.1.trans hmatched⟩

/-! ## Parses -/

/-- Two results say the same of what a parse accepts and produces. -/
inductive SameVerdict : Except ParseError (Outcome V) → Except ParseError (Outcome V) → Prop
  | succeeded {success success' : Success V} (hstop : success.stop = success'.stop)
      (hvalues : success.values = success'.values) (htree : success.tree? = success'.tree?) :
      SameVerdict (.ok (.succeeded success)) (.ok (.succeeded success'))
  | failed (failure failure' : Failure V) :
      SameVerdict (.ok (.failed failure)) (.ok (.failed failure'))
  | aborted (error : ParseError) : SameVerdict (.error error) (.error error)

/-- Failures have the same verdict, whatever they report. -/
theorem sameVerdict_fail (env env' : Env V) (root : RuleId) (m m' : Machine V) :
    SameVerdict (fail env root m).result (fail env' root m').result := by
  rcases result_fail env root m with ⟨_, _, hresult⟩
  rcases result_fail env' root m' with ⟨_, _, hresult'⟩
  rw [hresult, hresult']
  exact .failed _ _

/-- Remembering mismatches changes neither whether a parse succeeds, fails or is aborted,
and with which error, nor what a success produces. -/
theorem execute_memoization {grammar : Grammar V} (hfree : grammar.MemoActionFree)
    (settings : Settings) (source : Source) (root : RuleId)
    (hlimit : ∀ limit position,
      (execute grammar { settings with memoization := false } source root).result ≠
        .error (.recursionLimit limit position)) :
    SameVerdict (execute grammar { settings with memoization := true } source root).result
      (execute grammar { settings with memoization := false } source root).result := by
  cases hroot : grammar.rule? root with
  | none =>
      rw [execute_of_rule?_eq_none hroot, execute_of_rule?_eq_none hroot]
      exact .aborted _
  | some definition =>
      have halike : Alike _
          (runPass ⟨grammar, source, { settings with memoization := true }, .first⟩ root)
          (runPass ⟨grammar, source, { settings with memoization := false }, .first⟩ root) :=
        alike_runPass ⟨grammar, source, settings, .first⟩ root hfree False.elim
      generalize hwith : runPass ⟨grammar, source, { settings with memoization := true }, .first⟩
        root = outcome at halike
      generalize hwithout : runPass ⟨grammar, source, { settings with memoization := false },
        .first⟩ root = outcome' at halike
      cases halike with
      | @matched m n h =>
          have hend : m.cursor.atEnd = n.cursor.atEnd := congrArg Cursor.atEnd h.cursor_eq
          rw [result_of_matched hroot hwith, result_of_matched hroot hwithout, hend]
          split
          next =>
              rcases h.same with ⟨_, _, _, _, rfl⟩
              exact .succeeded rfl rfl rfl
          next => exact sameVerdict_fail _ _ _ _ _
      | mismatched h =>
          rw [result_of_mismatched hroot hwith, result_of_mismatched hroot hwithout]
          exact sameVerdict_fail _ _ _ _ _
      | aborted error l l' =>
          rw [result_of_aborted hroot hwith, result_of_aborted hroot hwithout]
          exact .aborted error
      | limited outcome limit position l' =>
          exact absurd (result_of_aborted hroot hwithout) (hlimit limit position)

/-- A match behind two alternatives that fail in the same rule. -/
theorem execute_memoization_retriedPair :
    (∀ limit position,
      (execute retriedPair { memoization := false } (.plain ['a']) ⟨1⟩).result ≠
        .error (.recursionLimit limit position)) ∧
      SameVerdict (execute retriedPair { memoization := true } (.plain ['a']) ⟨1⟩).result
        (execute retriedPair { memoization := false } (.plain ['a']) ⟨1⟩).result := by
  have hok :
      (execute retriedPair { memoization := false } (.plain ['a']) ⟨1⟩).result.isOk = true := by
    cbv
  have hlimit : ∀ limit position,
      (execute retriedPair { memoization := false } (.plain ['a']) ⟨1⟩).result ≠
        .error (.recursionLimit limit position) := by
    intro limit position herror
    rw [herror] at hok
    cases hok
  exact ⟨hlimit, execute_memoization memoActionFree_retriedPair {} (.plain ['a']) ⟨1⟩ hlimit⟩

/-! ## Failures -/

/-- Two failures are reported at the same place, with the same names and the same
character found there. -/
structure SameFailure (failure failure' : Failure V) : Prop where
  position_eq : failure.position = failure'.position
  expected_eq : failure.expected = failure'.expected
  found_eq : failure.found? = failure'.found?

/-- Frontiers that are reported alike make failures that are. -/
theorem sameFailure_fail {env : Env V} {m n : Machine V} (root : RuleId)
    (h : m.frontier.SameReport env.grammar n.frontier) {failure : Failure V}
    (hfailure : (fail (env.memoizing false) root n).result = .ok (.failed failure)) :
    ∃ failure', (fail (env.memoizing true) root m).result = .ok (.failed failure') ∧
      SameFailure failure' failure := by
  rcases result_fail (env.memoizing true) root m with ⟨_, _, hresult⟩
  rcases result_fail (env.memoizing false) root n with ⟨_, _, hresult'⟩
  rw [hresult', Except.ok.injEq, Outcome.failed.injEq] at hfailure
  subst hfailure
  refine ⟨_, hresult, ⟨?_, h.labels_eq, ?_⟩⟩
  · exact congrArg env.source.position h.position_eq
  · exact congrArg env.source.charAt? h.position_eq

/-- If no rule whose mismatches are remembered is invoked both inside and outside of
lookahead, remembering mismatches does not change what a failed parse reports. -/
theorem failure_memoization {grammar : Grammar V} (hfree : grammar.MemoActionFree)
    {root : RuleId} (hapart : grammar.MemoApart root) (settings : Settings) (source : Source)
    {failure : Failure V}
    (hfailed : (execute grammar { settings with memoization := false } source root).result =
      .ok (.failed failure)) :
    ∃ failure',
      (execute grammar { settings with memoization := true } source root).result =
        .ok (.failed failure') ∧ SameFailure failure' failure := by
  cases hroot : grammar.rule? root with
  | none =>
      rw [execute_of_rule?_eq_none hroot] at hfailed
      cases hfailed
  | some definition =>
      have halike : Alike _
          (runPass ⟨grammar, source, { settings with memoization := true }, .first⟩ root)
          (runPass ⟨grammar, source, { settings with memoization := false }, .first⟩ root) :=
        alike_runPass ⟨grammar, source, settings, .first⟩ root hfree
          fun _ : True => ⟨rfl, hapart⟩
      generalize hwith : runPass ⟨grammar, source, { settings with memoization := true }, .first⟩
        root = outcome at halike
      generalize hwithout : runPass ⟨grammar, source, { settings with memoization := false },
        .first⟩ root = outcome' at halike
      cases halike with
      | @matched m n h =>
          have hend : m.cursor.atEnd = n.cursor.atEnd := congrArg Cursor.atEnd h.cursor_eq
          rw [result_of_matched hroot hwithout] at hfailed
          rw [result_of_matched hroot hwith, hend]
          split at hfailed
          next => cases hfailed
          next hrest =>
              rw [if_neg hrest]
              have hstop := recordFailure_memo h .endOfInput
              exact sameFailure_fail root (hstop.report trivial) hfailed
      | mismatched h =>
          rw [result_of_mismatched hroot hwithout] at hfailed
          rw [result_of_mismatched hroot hwith]
          exact sameFailure_fail root (h.report trivial) hfailed
      | aborted error l l' =>
          rw [result_of_aborted hroot hwithout] at hfailed
          cases hfailed
      | limited outcome limit position l' =>
          rw [result_of_aborted hroot hwithout] at hfailed
          cases hfailed

/-- A failure with what was tried in a rule whose mismatch is remembered. -/
theorem failure_memoization_retriedPair :
    ∃ failure failure',
      (execute retriedPair { memoization := false } (.plain ['a', 'x']) ⟨1⟩).result =
        .ok (.failed failure) ∧
      (execute retriedPair { memoization := true } (.plain ['a', 'x']) ⟨1⟩).result =
        .ok (.failed failure') ∧ SameFailure failure' failure := by
  have hfailed : (execute retriedPair { memoization := false } (.plain ['a', 'x']) ⟨1⟩).result =
      .ok (.failed ⟨⟨1, 0, 1⟩, ["'b'", "EOI"], some 'x', none, ⟨3, 2, 0, 0, 1, 2, 0⟩⟩) := by
    cbv
  have hnone : ∀ id rule, retriedPair.rule? id = some rule →
      ∀ e ∈ rule.body.subterms, e.looksAhead = false := by
    rintro ⟨_ | _ | index⟩ rule hrule
    · cases hrule
      simp [retriedPair, Expr.subterms, Expr.subtermsOf, Expr.looksAhead]
    · cases hrule
      simp [retriedPair, Expr.subterms, Expr.subtermsOf, Expr.looksAhead]
    · cases hrule
  rcases failure_memoization memoActionFree_retriedPair
    (Grammar.memoApart_of_no_lookahead hnone ⟨1⟩) {} (.plain ['a', 'x']) hfailed
    with ⟨failure', hfailed', hsame⟩
  exact ⟨_, failure', hfailed, hfailed', hsame⟩

/-- A grammar in which a rule is tried inside of lookahead and then outside. -/
def probedPair : Grammar Nat where
  rules := #[
    ⟨"pair", .seq [.char 'a', .char 'b'], { memoMismatches := true }⟩,
    ⟨"start", .seq [.notAhead (.rule ⟨0⟩), .rule ⟨0⟩], {}⟩]

/-- A rule that is remembered inside of lookahead is missing from the report. -/
theorem failure_memoization_probedPair :
    (∃ draft : Draft Nat, draft.build = .ok probedPair) ∧ probedPair.MemoActionFree ∧
      ∃ failure failure',
        (execute probedPair { memoization := false } (.plain ['a', 'c']) ⟨1⟩).result =
          .ok (.failed failure) ∧
        (execute probedPair { memoization := true } (.plain ['a', 'c']) ⟨1⟩).result =
          .ok (.failed failure') ∧
        failure.position.offset = 1 ∧ failure'.position.offset = 0 ∧
        ¬ SameFailure failure' failure := by
  refine ⟨?_, ?_, ?_⟩
  · let first : RuleId × Draft Nat := Draft.empty.ruleWith "pair" { memoMismatches := true }
      (.seq [.char 'a', .char 'b'])
    exact ⟨(first.2.rule "start" (.seq [.notAhead (.rule first.1), .rule first.1])).2, by cbv⟩
  · intro id rule hrule hmemo
    rcases id with ⟨_ | _ | index⟩
    · refine Grammar.actionFree_of_no_reference hrule ?_ ?_
      · cases hrule
        simp [probedPair, Expr.subterms, Expr.subtermsOf]
      · cases hrule
        simp [probedPair, Expr.subterms, Expr.subtermsOf]
    · cases hrule
      cases hmemo
    · cases hrule
  · have hfailed : (execute probedPair { memoization := false } (.plain ['a', 'c']) ⟨1⟩).result =
        .ok (.failed ⟨⟨1, 0, 1⟩, ["'b'"], some 'c', none, ⟨3, 0, 0, 0, 0, 2, 0⟩⟩) := by
      cbv
    have hfailed' : ∃ failure',
        (execute probedPair { memoization := true } (.plain ['a', 'c']) ⟨1⟩).result =
          .ok (.failed failure') ∧ failure'.position.offset = 0 := by
      -- The second time the rule is looked up in a table with one entry, its own.
      have hrun : ∃ m, runPass ⟨probedPair, .plain ['a', 'c'], {}, .first⟩ ⟨1⟩ = (.mismatched, m) ∧
          m.frontier.position = 0 := by
        simp [runPass, Machine.start, Source.cursor, Cursor.start, invoke, Grammar.rule?,
          probedPair, Eval.rule, Machine.memoContext, Pass.isRepair, body, enterRule, leaveRule,
          remember, knownMismatch, Machine.recordNamed, Frontier.recordNamed, Frontier.empty,
          expr, rewinding, Eval.sequence, keepingCommitment, runElements, Element.ofExpr, ahead,
          openProbe, closeProbe, aheadVerdict, terminal, consume?, Cursor.eatIf?, missing,
          Machine.recordFailure, Machine.recording, Machine.inserted, Machine.offset,
          Machine.emit]
      rcases hrun with ⟨m, hrun, hposition⟩
      have hroot : probedPair.rule? ⟨1⟩ = some probedPair.rules[1] := rfl
      rcases result_fail ⟨probedPair, .plain ['a', 'c'], {}, .first⟩ ⟨1⟩ m with ⟨_, _, hfail⟩
      refine ⟨_, (result_of_mismatched hroot hrun).trans hfail, ?_⟩
      simp [failureOf, hposition]
    rcases hfailed' with ⟨failure', hfailed', hoffset⟩
    refine ⟨_, failure', hfailed, hfailed', rfl, hoffset, fun hsame => ?_⟩
    have hposition := congrArg Position.offset hsame.position_eq
    rw [hoffset] at hposition
    cases hposition

end Peg
