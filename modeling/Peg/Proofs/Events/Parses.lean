import Mathlib
import Peg.Grammar.Draft
import Peg.Proofs.Events.Observed

/-!
# The events of a parse

The events of a parse are balanced: those of its first pass, and, if that failed and repairs
are allowed, those of the repairing pass behind the event that announces it.  Only a pass
that is aborted breaks off.

The counts that a parse reports are those of its events, except for a repairing pass that is
aborted: its events have been observed, but its counts are dropped.

Main results:

- `events_balanced`: the events of a parse by its result.
- `stats_tally`: the counts of a parse are those of its events, unless a repairing pass was
  aborted.
- `stats_tally_unfinished`: a repairing pass that is aborted is not counted.
-/

namespace Peg

open Text Event

variable {V : Type} {grammar : Grammar V} {settings : Settings} {source : Source} {root : RuleId}

/-! ## The passes of a parse -/

/-- What is observed of a first pass. -/
theorem observed_first (grammar : Grammar V) (settings : Settings) (source : Source)
    (root : RuleId) {o : Verdict × Machine V}
    (hrun : runPass ⟨grammar, source, settings, .first⟩ root = o) :
    BrokenOff none settings.maxDepth 0 o.2.events.reverse ∧
      (o.1.isAborted = false → Balanced none settings.maxDepth 0 o.2.events.reverse ∧
        o.2.stats.Tallies o.2.events.reverse) := by
  rcases exists_observed_runPass ⟨grammar, source, settings, .first⟩ root
    with ⟨trace, htrace, hbroken, hends⟩
  rw [hrun] at htrace hends
  rw [htrace]
  exact ⟨hbroken, hends⟩

/-- What is observed of a repairing pass. -/
theorem exists_observed_repair (grammar : Grammar V) (settings : Settings) (source : Source)
    (root : RuleId) (errorOffset : Nat) :
    ∃ trace, (runPass ⟨grammar, source, settings, .repair errorOffset⟩ root).2.events.reverse =
        .recoveryPass errorOffset :: trace ∧
      BrokenOff (some errorOffset) settings.maxDepth 0 trace ∧
      ((runPass ⟨grammar, source, settings, .repair errorOffset⟩ root).1.isAborted = false →
        Balanced (some errorOffset) settings.maxDepth 0 trace ∧
          (runPass ⟨grammar, source, settings, .repair errorOffset⟩ root).2.stats.Tallies trace) :=
  exists_observed_runPass ⟨grammar, source, settings, .repair errorOffset⟩ root

/-- A parse whose first pass failed. -/
theorem execute_of_failedShort {definition : Rule V} (hroot : grammar.rule? root = some definition)
    (h : FailedShort (runPass ⟨grammar, source, settings, .first⟩ root)) :
    execute grammar settings source root =
      fail ⟨grammar, source, settings, .first⟩ root
        (reportedFrom ⟨grammar, source, settings, .first⟩
          (runPass ⟨grammar, source, settings, .first⟩ root)) := by
  unfold execute
  rw [hroot]
  dsimp only
  generalize runPass ⟨grammar, source, settings, .first⟩ root = o at h
  rcases h with hmismatched | ⟨hmatched, hshort⟩
  · rcases o with ⟨verdict, m⟩
    obtain rfl : verdict = .mismatched := hmismatched
    rfl
  · rcases o with ⟨verdict, m⟩
    obtain rfl : verdict = .matched := hmatched
    exact if_neg (Bool.eq_false_iff.1 hshort)

/-- The frontier alone is touched before a failed first pass is reported. -/
theorem watched_reportedFrom (env : Env V) (o : Verdict × Machine V) :
    (reportedFrom env o).watched = o.2.watched := by
  rcases o with ⟨_ | _ | _, m⟩
  · change (m.recordFailure env m.offset .endOfInput).watched = _
    rw [Machine.recordFailure_eq]
    rfl
  · rfl
  · rfl

/-- The events of a failed parse are those of both its passes. -/
theorem events_fail (env : Env V) (root : RuleId) (m : Machine V) :
    (fail env root m).events =
      if env.settings.recovery then
        m.events.reverse ++
          (runPass { env with pass := .repair m.frontier.position } root).2.events.reverse
      else m.events.reverse := by
  unfold fail
  split
  next =>
      unfold repair
      dsimp only
      generalize runPass { env with pass := .repair m.frontier.position } root = o
      rcases o with ⟨_ | _ | _, left⟩ <;> rfl
  next => rfl

/-- Its counts are, unless the repairing pass was aborted. -/
theorem stats_fail {env : Env V} {m : Machine V} {failure : Failure V}
    (h : (fail env root m).result = .ok (.failed failure)) :
    failure.stats =
      if env.settings.recovery then
        if (runPass { env with pass := .repair m.frontier.position } root).1.isAborted then m.stats
        else m.stats.merge (runPass { env with pass := .repair m.frontier.position } root).2.stats
      else m.stats := by
  unfold fail at h
  split at h
  next hrecovery =>
      rw [if_pos hrecovery]
      unfold repair at h
      dsimp only at h
      generalize runPass { env with pass := .repair m.frontier.position } root = o at h ⊢
      rcases o with ⟨_ | _ | _, left⟩
      all_goals
        cases h
        rfl
  next hrecovery =>
      rw [if_neg hrecovery]
      cases h
      rfl

/-! ## The events by the result -/

/-- A parse that is aborted breaks off. -/
theorem brokenOff_of_error {error : ParseError}
    (h : (execute grammar settings source root).result = .error error) :
    BrokenOff none settings.maxDepth 0 (execute grammar settings source root).events := by
  cases hroot : grammar.rule? root with
  | none =>
      rw [execute_of_rule?_eq_none hroot]
      exact Balanced.nil.brokenOff
  | some definition =>
      generalize hrun : runPass ⟨grammar, source, settings, .first⟩ root = o
      by_cases hshort : FailedShort o
      · rw [execute_of_failedShort hroot (hrun.symm ▸ hshort)] at h
        rcases result_fail ⟨grammar, source, settings, .first⟩ root _ with ⟨_, _, hfail⟩
        cases hfail.symm.trans h
      · rcases o with ⟨_ | _ | found, m⟩
        · have hend : m.cursor.atEnd = true :=
            eq_true_of_ne_false fun hshort' => hshort (.inr ⟨rfl, hshort'⟩)
          simp [execute, hroot, hrun, hend] at h
        · exact absurd (.inl rfl) hshort
        · have hevents : (execute grammar settings source root).events = m.events.reverse := by
            simp only [execute, hroot, hrun]
          rw [hevents]
          exact (observed_first grammar settings source root hrun).1

/-- What is observed and counted of a parse that succeeds. -/
theorem observed_of_succeeded {success : Success V}
    (h : (execute grammar settings source root).result = .ok (.succeeded success)) :
    Balanced none settings.maxDepth 0 (execute grammar settings source root).events ∧
      success.stats.Tallies (execute grammar settings source root).events := by
  rcases exists_of_succeeded h with ⟨m, hrun, hend, rfl⟩
  cases hroot : grammar.rule? root with
  | none =>
      rw [execute_of_rule?_eq_none hroot] at h
      cases h
  | some definition =>
      have hevents : (execute grammar settings source root).events = m.events.reverse := by
        simp only [execute, hroot, hrun, hend, if_true]
      rw [hevents]
      exact (observed_first grammar settings source root hrun).2 rfl

/-- What is observed and counted of a parse that fails: its first pass, and the repairing one
if there is one. -/
theorem exists_observed_of_failed {failure : Failure V}
    (h : (execute grammar settings source root).result = .ok (.failed failure)) :
    ∃ errorOffset first, ∃ stats : Stats,
      errorOffset = (reportedFrom ⟨grammar, source, settings, .first⟩
        (runPass ⟨grammar, source, settings, .first⟩ root)).frontier.position ∧
      failure.position = source.position errorOffset ∧
      Balanced none settings.maxDepth 0 first ∧
      stats.Tallies first ∧
      ((execute grammar settings source root).events =
        if settings.recovery then
          first ++
            (runPass ⟨grammar, source, settings, .repair errorOffset⟩ root).2.events.reverse
        else first) ∧
      failure.stats =
        if settings.recovery then
          if (runPass ⟨grammar, source, settings, .repair errorOffset⟩ root).1.isAborted then stats
          else stats.merge
            (runPass ⟨grammar, source, settings, .repair errorOffset⟩ root).2.stats
        else stats := by
  rcases exists_of_failed h with ⟨hshort, errorOffset, herror, hposition, -⟩
  cases hroot : grammar.rule? root with
  | none =>
      rw [execute_of_rule?_eq_none hroot] at h
      cases h
  | some definition =>
      have hends := Verdict.isAborted_eq_false_iff.2 hshort.ne_aborted
      have hfirst := (observed_first grammar settings source root rfl).2 hends
      have hwatched := watched_reportedFrom ⟨grammar, source, settings, .first⟩
        (runPass ⟨grammar, source, settings, .first⟩ root)
      rw [execute_of_failedShort hroot hshort] at h ⊢
      generalize reportedFrom ⟨grammar, source, settings, .first⟩ _ = m at *
      simp only [Machine.watched, Prod.mk.injEq] at hwatched
      refine ⟨errorOffset, _, _, herror, hposition, hfirst.1, hfirst.2, ?_, ?_⟩
      · rw [events_fail, herror, hwatched.1]
      · rw [stats_fail h, herror, hwatched.2]

/-- The events of a parse are balanced, in one list if it succeeds.  If it fails, those of the
first pass are balanced; and exactly if repairs are allowed, they are followed by the event
that announces the repairing pass, with the place where the first one failed, and the events
of that pass, which are balanced unless it is aborted.  In a parse that is aborted, the first
pass has broken off.  No more invocations are ever nested than the settings allow. -/
theorem events_balanced (grammar : Grammar V) (settings : Settings) (source : Source)
    (root : RuleId) :
    deepest (execute grammar settings source root).events ≤ settings.maxDepth ∧
      match (execute grammar settings source root).result with
      | .ok (.succeeded _) =>
        Balanced none settings.maxDepth 0 (execute grammar settings source root).events
      | .ok (.failed failure) =>
        ∃ first, Balanced none settings.maxDepth 0 first ∧
          if settings.recovery then
            ∃ errorOffset second,
              errorOffset = (reportedFrom ⟨grammar, source, settings, .first⟩
                (runPass ⟨grammar, source, settings, .first⟩ root)).frontier.position ∧
              failure.position = source.position errorOffset ∧
              (execute grammar settings source root).events =
                first ++ .recoveryPass errorOffset :: second ∧
              BrokenOff (some errorOffset) settings.maxDepth 0 second ∧
              ((∀ error, (runPass ⟨grammar, source, settings, .repair errorOffset⟩ root).1 ≠
                  .aborted error) →
                Balanced (some errorOffset) settings.maxDepth 0 second)
          else (execute grammar settings source root).events = first
      | .error _ =>
        BrokenOff none settings.maxDepth 0 (execute grammar settings source root).events := by
  generalize hresult : (execute grammar settings source root).result = result
  rcases result with error | success | failure
  · have hbroken := brokenOff_of_error hresult
    exact ⟨hbroken.deepest_le, hbroken⟩
  · have hbalanced := (observed_of_succeeded hresult).1
    exact ⟨hbalanced.deepest_le, hbalanced⟩
  · rcases exists_observed_of_failed hresult
      with ⟨errorOffset, first, stats, herror, hposition, hfirst, -, hevents, -⟩
    by_cases hrecovery : settings.recovery = true
    · rcases exists_observed_repair grammar settings source root errorOffset
        with ⟨second, hsecond, hbroken, hends⟩
      rw [if_pos hrecovery, hsecond] at hevents
      refine ⟨?_, first, hfirst, ?_⟩
      · rw [hevents, hfirst.deepest_append]
        exact Nat.max_le.2 ⟨hfirst.deepest_le, hbroken.deepest_le⟩
      · rw [if_pos hrecovery]
        exact ⟨errorOffset, second, herror, hposition, hevents, hbroken,
          fun hmore => (hends (Verdict.isAborted_eq_false_iff.2 hmore)).1⟩
    · rw [if_neg hrecovery] at hevents
      refine ⟨?_, first, hfirst, ?_⟩
      · rw [hevents]
        exact hfirst.deepest_le
      · rw [if_neg hrecovery]
        exact hevents

/-- What a parse reports to have done. -/
def Outcome.stats : Outcome V → Stats
  | .succeeded success => success.stats
  | .failed failure => failure.stats

/-- The counts of a parse are those of its events, if no repairing pass was aborted. -/
theorem stats_tally {outcome : Outcome V}
    (h : (execute grammar settings source root).result = .ok outcome)
    (hends : ∀ errorOffset,
      .recoveryPass errorOffset ∈ (execute grammar settings source root).events →
        ∀ error, (runPass ⟨grammar, source, settings, .repair errorOffset⟩ root).1 ≠
          .aborted error) :
    outcome.stats.Tallies (execute grammar settings source root).events := by
  cases outcome with
  | succeeded success => exact (observed_of_succeeded h).2
  | failed failure =>
      rcases exists_observed_of_failed h
        with ⟨errorOffset, first, stats, -, -, hfirst, htally, hevents, hstats⟩
      by_cases hrecovery : settings.recovery = true
      · rcases exists_observed_repair grammar settings source root errorOffset
          with ⟨second, hsecond, -, hsettled⟩
        rw [if_pos hrecovery, hsecond] at hevents
        have hmore : (runPass ⟨grammar, source, settings, .repair errorOffset⟩ root).1.isAborted =
            false :=
          Verdict.isAborted_eq_false_iff.2 (hends errorOffset (by simp [hevents]))
        rw [if_pos hrecovery, hmore, if_neg Bool.false_ne_true] at hstats
        change failure.stats.Tallies _
        rw [hevents, hstats]
        exact htally.merge (hsettled hmore).2 hfirst errorOffset
      · rw [if_neg hrecovery] at hevents hstats
        change failure.stats.Tallies _
        rw [hevents, hstats]
        exact htally

/-- Accept what was matched, but not what was stood in for. -/
def rejectSynthetic : Action Nat := fun view =>
  if view.synthetic then .fail (.failed "no digits") else return true

/-- A grammar of assignments of numbers that must not be missing. -/
def assignment : Grammar Nat where
  rules := #[
    ⟨"number", .seq [.plus (.range '0' '9'), .action rejectSynthetic], {}⟩,
    ⟨"assign", .seq [.char '=', .rule ⟨0⟩], {}⟩]

/-- Behind the number of a text that goes on, no repair is needed. -/
theorem runPass_assignment :
    (runPass ⟨assignment, .plain ['1', ';'], { recovery := true }, .repair 1⟩ ⟨0⟩).1 =
      .matched := by
  cbv

theorem stats_tally_assignment :
    ∃ failure,
      (execute assignment { recovery := true } (.plain ['1', ';']) ⟨0⟩).result =
        .ok (.failed failure) ∧
      (∀ errorOffset,
        .recoveryPass errorOffset ∈
            (execute assignment { recovery := true } (.plain ['1', ';']) ⟨0⟩).events →
          ∀ error, (runPass ⟨assignment, .plain ['1', ';'], { recovery := true },
            .repair errorOffset⟩ ⟨0⟩).1 ≠ .aborted error) ∧
      failure.stats.ruleCalls = 2 ∧
      (Outcome.failed failure).stats.Tallies
        (execute assignment { recovery := true } (.plain ['1', ';']) ⟨0⟩).events := by
  have hexecute : execute assignment { recovery := true } (.plain ['1', ';']) ⟨0⟩ =
      ⟨.ok (.failed ⟨⟨1, 0, 1⟩, ["'0'..'9'", "EOI"], some ';',
          some ⟨⟨1, 0, 1⟩, false, [], [], none⟩, ⟨2, 0, 0, 0, 2, 1, 0⟩⟩),
        [.enter ⟨0⟩ 0, .exit ⟨0⟩ 1 true, .recoveryPass 1, .enter ⟨0⟩ 0, .exit ⟨0⟩ 1 true]⟩ := by
    cbv
  have hfailed := congrArg Execution.result hexecute
  have hends : ∀ errorOffset,
      .recoveryPass errorOffset ∈
          (execute assignment { recovery := true } (.plain ['1', ';']) ⟨0⟩).events →
        ∀ error, (runPass ⟨assignment, .plain ['1', ';'], { recovery := true },
          .repair errorOffset⟩ ⟨0⟩).1 ≠ .aborted error := by
    intro errorOffset hmem error haborted
    obtain rfl : errorOffset = 1 := by simpa [hexecute] using hmem
    cases runPass_assignment.symm.trans haborted
  exact ⟨_, hfailed, hends, rfl, stats_tally hfailed hends⟩

/-- The counts of a repairing pass in which an action fails are dropped: twice as many
invocations have been observed as are reported, and a repair that is not. -/
theorem stats_tally_unfinished :
    (∃ draft : Draft Nat, draft.build = .ok assignment) ∧
      ∃ failure,
        (execute assignment { recovery := true } (.plain ['=']) ⟨1⟩).result =
          .ok (.failed failure) ∧
        failure.stats.ruleCalls = 2 ∧ failure.stats.recoveredErrors = 0 ∧
        (execute assignment { recovery := true } (.plain ['=']) ⟨1⟩).events.countP isEnter = 4 ∧
        (execute assignment { recovery := true } (.plain ['=']) ⟨1⟩).events.countP isInserted =
          1 ∧
        ¬ (Outcome.failed failure).stats.Tallies
          (execute assignment { recovery := true } (.plain ['=']) ⟨1⟩).events := by
  refine ⟨?_, ?_⟩
  · exact ⟨((Draft.empty.rule "number"
      (.seq [.plus (.range '0' '9'), .action rejectSynthetic])).2.rule "assign"
        (.seq [.char '=', .rule ⟨0⟩])).2, by cbv⟩
  · have hexecute : execute assignment { recovery := true } (.plain ['=']) ⟨1⟩ =
        ⟨.ok (.failed ⟨⟨1, 0, 1⟩, ["number"], none, none, ⟨2, 0, 0, 0, 0, 2, 0⟩⟩),
          [.enter ⟨1⟩ 0, .enter ⟨0⟩ 1, .exit ⟨0⟩ 1 false, .exit ⟨1⟩ 0 false, .recoveryPass 1,
            .enter ⟨1⟩ 0, .enter ⟨0⟩ 1, .inserted 1]⟩ := by
      cbv
    rw [hexecute]
    exact ⟨_, rfl, rfl, rfl, rfl, rfl, fun htallies => absurd htallies.ruleCalls (by decide)⟩

end Peg
