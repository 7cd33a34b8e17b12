import Peg.Parse.Run
import Peg.Proofs.Parse.Framed

/-!
# The first pass decides

Whether a parse succeeds, fails or is aborted is decided by its first pass.

Main results:

- `result_of_matched`, `result_of_mismatched` and `result_of_aborted`: the result of a
  parse by the verdict of its first pass.
- `result_fail`: after a first pass that failed the parse has failed.
- `eq_unknownRoot_or_aborted`: a parse is aborted with its first pass, if it has one.
- `exists_of_succeeded`: a successful parse matched the whole text in its first pass.
- `result_fail_of_failed`: a parse that has failed did so after its first pass.
- `exists_failureOf`, `exists_of_failed` and `exists_of_recovered`: what a failed parse is
  reported with, and what is recovered.
-/

namespace Peg

open Text

variable {V : Type}

/-- The machine at the start of a pass is in order. -/
theorem valid_start (env : Env V) : (Machine.start env).Valid env :=
  ⟨Cursor.within_start env.source.text, Locals.valid_empty⟩

/-- Whatever becomes of repairs, a failure is reported at the frontier of the first
pass. -/
theorem result_fail (env : Env V) (root : RuleId) (m : Machine V) :
    ∃ recovered? stats,
      (fail env root m).result = .ok (.failed (failureOf env m recovered? stats)) := by
  unfold fail
  split
  next => exact ⟨_, _, rfl⟩
  next => exact ⟨_, _, rfl⟩

section Verdicts

variable {grammar : Grammar V} {root : RuleId} {definition : Rule V} {settings : Settings}
variable {source : Source} {m : Machine V}

/-- A match up to the end succeeds, and one that ends before it fails there. -/
theorem result_of_matched (hroot : grammar.rule? root = some definition)
    (hrun : runPass ⟨grammar, source, settings, .first⟩ root = (.matched, m)) :
    (execute grammar settings source root).result =
      if m.cursor.atEnd then
        .ok (.succeeded (successOf ⟨grammar, source, settings, .first⟩ root m))
      else
        (fail ⟨grammar, source, settings, .first⟩ root
          (m.recordFailure ⟨grammar, source, settings, .first⟩ m.offset .endOfInput)).result := by
  simp only [execute, hroot, hrun]
  by_cases hend : m.cursor.atEnd = true
  · rw [if_pos hend, if_pos hend]
  · rw [if_neg hend, if_neg hend]

/-- A first pass that does not match fails with what it recorded. -/
theorem result_of_mismatched (hroot : grammar.rule? root = some definition)
    (hrun : runPass ⟨grammar, source, settings, .first⟩ root = (.mismatched, m)) :
    (execute grammar settings source root).result =
      (fail ⟨grammar, source, settings, .first⟩ root m).result := by
  simp only [execute, hroot, hrun]

/-- A first pass that is aborted ends the parse with its error. -/
theorem result_of_aborted (hroot : grammar.rule? root = some definition) {error : ParseError}
    (hrun : runPass ⟨grammar, source, settings, .first⟩ root = (.aborted error, m)) :
    (execute grammar settings source root).result = .error error := by
  simp only [execute, hroot, hrun]

end Verdicts

/-- A parse is aborted because there is no rule to start from, or with its first pass. -/
theorem eq_unknownRoot_or_aborted {grammar : Grammar V} {settings : Settings} {source : Source}
    {root : RuleId} {error : ParseError}
    (h : (execute grammar settings source root).result = .error error) :
    error = .unknownRoot root.index ∨
      (runPass ⟨grammar, source, settings, .first⟩ root).1 = .aborted error := by
  cases hroot : grammar.rule? root with
  | none =>
      rw [execute_of_rule?_eq_none hroot] at h
      exact .inl (Except.error.inj h).symm
  | some definition =>
      right
      generalize hrun : runPass ⟨grammar, source, settings, .first⟩ root = o
      rcases o with ⟨_ | _ | found, m⟩
      · rw [result_of_matched hroot hrun] at h
        split at h
        next => cases h
        next =>
            rcases result_fail ⟨grammar, source, settings, .first⟩ root
              (m.recordFailure ⟨grammar, source, settings, .first⟩ m.offset .endOfInput)
              with ⟨_, _, hfail⟩
            cases hfail.symm.trans h
      · rw [result_of_mismatched hroot hrun] at h
        rcases result_fail ⟨grammar, source, settings, .first⟩ root m with ⟨_, _, hfail⟩
        cases hfail.symm.trans h
      · rw [result_of_aborted hroot hrun] at h
        exact congrArg Verdict.aborted (Except.error.inj h)

/-- A parse that has succeeded did so with a first pass that matched the whole text. -/
theorem exists_of_succeeded {grammar : Grammar V} {settings : Settings} {source : Source}
    {root : RuleId} {success : Success V}
    (h : (execute grammar settings source root).result = .ok (.succeeded success)) :
    ∃ m, runPass ⟨grammar, source, settings, .first⟩ root = (.matched, m) ∧
      m.cursor.atEnd = true ∧
      success = successOf ⟨grammar, source, settings, .first⟩ root m := by
  cases hroot : grammar.rule? root with
  | none =>
      rw [execute_of_rule?_eq_none hroot] at h
      cases h
  | some definition =>
      generalize hrun : runPass ⟨grammar, source, settings, .first⟩ root = o
      rcases o with ⟨_ | _ | error, m⟩
      · rw [result_of_matched hroot hrun] at h
        split at h
        next hend =>
            cases h
            exact ⟨m, rfl, hend, rfl⟩
        next =>
            rcases result_fail ⟨grammar, source, settings, .first⟩ root
              (m.recordFailure ⟨grammar, source, settings, .first⟩ m.offset .endOfInput)
              with ⟨_, _, hfail⟩
            cases hfail.symm.trans h
      · rw [result_of_mismatched hroot hrun] at h
        rcases result_fail ⟨grammar, source, settings, .first⟩ root m with ⟨_, _, hfail⟩
        cases hfail.symm.trans h
      · rw [result_of_aborted hroot hrun] at h
        cases h

/-! ## Failed parses -/

/-- A first pass has failed if it did not match, or not all of the text. -/
def FailedShort (o : Verdict × Machine V) : Prop :=
  o.1 = .mismatched ∨ o.1 = .matched ∧ o.2.cursor.atEnd = false

/-- An error ends a parse, which then has not failed. -/
theorem FailedShort.ne_aborted {o : Verdict × Machine V} (h : FailedShort o) (error : ParseError) :
    o.1 ≠ .aborted error := by
  intro haborted
  rcases h with hmismatched | ⟨hmatched, -⟩
  · cases hmismatched.symm.trans haborted
  · cases hmatched.symm.trans haborted

/-- The machine that a first pass which failed is reported from: a match that is too
short has missed the end of the input. -/
def reportedFrom (env : Env V) : Verdict × Machine V → Machine V
  | (.matched, m) => m.recordFailure env m.offset .endOfInput
  | (_, m) => m

/-- A parse that has failed did so after its first pass. -/
theorem result_fail_of_failed {grammar : Grammar V} {settings : Settings} {source : Source}
    {root : RuleId} {failure : Failure V}
    (h : (execute grammar settings source root).result = .ok (.failed failure)) :
    FailedShort (runPass ⟨grammar, source, settings, .first⟩ root) ∧
      (fail ⟨grammar, source, settings, .first⟩ root
        (reportedFrom ⟨grammar, source, settings, .first⟩
          (runPass ⟨grammar, source, settings, .first⟩ root))).result =
        .ok (.failed failure) := by
  cases hroot : grammar.rule? root with
  | none =>
      rw [execute_of_rule?_eq_none hroot] at h
      cases h
  | some definition =>
      generalize hrun : runPass ⟨grammar, source, settings, .first⟩ root = o
      rcases o with ⟨_ | _ | error, m⟩
      · rw [result_of_matched hroot hrun] at h
        split at h
        next => cases h
        next hend => exact ⟨.inr ⟨rfl, Bool.eq_false_iff.2 hend⟩, h⟩
      · rw [result_of_mismatched hroot hrun] at h
        exact ⟨.inl rfl, h⟩
      · rw [result_of_aborted hroot hrun] at h
        cases h

/-- A failed parse is reported from the machine after its first pass. -/
theorem exists_failureOf {grammar : Grammar V} {settings : Settings} {source : Source}
    {root : RuleId} {failure : Failure V}
    (h : (execute grammar settings source root).result = .ok (.failed failure)) :
    FailedShort (runPass ⟨grammar, source, settings, .first⟩ root) ∧
      ∃ recovered? stats, failure =
        failureOf ⟨grammar, source, settings, .first⟩
          (reportedFrom ⟨grammar, source, settings, .first⟩
            (runPass ⟨grammar, source, settings, .first⟩ root)) recovered? stats := by
  rcases result_fail_of_failed h with ⟨hfailed, hfail⟩
  rcases result_fail ⟨grammar, source, settings, .first⟩ root
    (reportedFrom ⟨grammar, source, settings, .first⟩
      (runPass ⟨grammar, source, settings, .first⟩ root)) with ⟨recovered?, stats, hreport⟩
  cases hreport.symm.trans hfail
  exact ⟨hfailed, recovered?, stats, rfl⟩

/-- What a repairing pass made of the text, if it matched. -/
def recoveredFrom? (env : Env V) (root : RuleId) : Verdict × Machine V → Option (Recovered V)
  | (.matched, left) => some (recoveredOf env root left)
  | _ => none

/-- Something is made of the text exactly if the pass matched. -/
theorem recoveredFrom?_eq_some_iff {env : Env V} {root : RuleId} {o : Verdict × Machine V}
    {recovered : Recovered V} :
    recoveredFrom? env root o = some recovered ↔
      ∃ left, o = (.matched, left) ∧ recovered = recoveredOf env root left := by
  rcases o with ⟨_ | _ | error, left⟩
  · constructor
    · rintro ⟨⟩
      exact ⟨left, rfl, rfl⟩
    · rintro ⟨_, ⟨⟩, rfl⟩
      rfl
  · exact ⟨nofun, nofun⟩
  · exact ⟨nofun, nofun⟩

/-- A failure is placed where the frontier is, and recovery starts from there. -/
theorem recovered?_fail {env : Env V} {root : RuleId} {m : Machine V} {failure : Failure V}
    (h : (fail env root m).result = .ok (.failed failure)) :
    failure.position = env.source.position m.frontier.position ∧
      failure.recovered? =
        if env.settings.recovery then
          recoveredFrom? { env with pass := .repair m.frontier.position } root
            (runPass { env with pass := .repair m.frontier.position } root)
        else none := by
  unfold fail at h
  split at h
  next hrecovery =>
      rw [if_pos hrecovery]
      unfold repair at h
      dsimp only at h
      generalize runPass { env with pass := .repair m.frontier.position } root = o at h ⊢
      rcases o with ⟨_ | _ | _, left⟩
      all_goals
        cases h
        exact ⟨rfl, rfl⟩
  next hrecovery =>
      rw [if_neg hrecovery]
      cases h
      exact ⟨rfl, rfl⟩

/-- What a failed parse says about its passes. -/
theorem exists_of_failed {grammar : Grammar V} {settings : Settings} {source : Source}
    {root : RuleId} {failure : Failure V}
    (h : (execute grammar settings source root).result = .ok (.failed failure)) :
    FailedShort (runPass ⟨grammar, source, settings, .first⟩ root) ∧
      ∃ errorOffset, errorOffset =
          (reportedFrom ⟨grammar, source, settings, .first⟩
            (runPass ⟨grammar, source, settings, .first⟩ root)).frontier.position ∧
        failure.position = source.position errorOffset ∧
        failure.recovered? =
          if settings.recovery then
            recoveredFrom? ⟨grammar, source, settings, .repair errorOffset⟩ root
              (runPass ⟨grammar, source, settings, .repair errorOffset⟩ root)
          else none := by
  rcases result_fail_of_failed h with ⟨hfailed, hfail⟩
  rcases recovered?_fail hfail with ⟨hposition, hrecovered⟩
  exact ⟨hfailed, _, rfl, hposition, hrecovered⟩

/-- What is recovered is what a repairing pass from the place of the failure has matched. -/
theorem exists_of_recovered {grammar : Grammar V} {settings : Settings} {source : Source}
    {root : RuleId} {failure : Failure V} {recovered : Recovered V}
    (h : (execute grammar settings source root).result = .ok (.failed failure))
    (hrecovered : failure.recovered? = some recovered) :
    ∃ errorOffset left, failure.position = source.position errorOffset ∧
      runPass ⟨grammar, source, settings, .repair errorOffset⟩ root = (.matched, left) ∧
      recovered = recoveredOf ⟨grammar, source, settings, .repair errorOffset⟩ root left := by
  rcases exists_of_failed h with ⟨-, errorOffset, -, hposition, hrepaired⟩
  rw [hrecovered] at hrepaired
  split at hrepaired
  next =>
      rcases recoveredFrom?_eq_some_iff.1 hrepaired.symm with ⟨left, hrun, hmade⟩
      exact ⟨errorOffset, left, hposition, hrun, hmade⟩
  next => cases hrepaired

end Peg
