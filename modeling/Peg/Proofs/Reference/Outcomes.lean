import Mathlib
import Peg.Proofs.Parse.FirstPass
import Peg.Proofs.Reference.Refinement

/-!
# Parses and the reference semantics

What a parse answers, in terms of how its rule ends in the reference semantics.  As
that semantics is deterministic, each answer is given in exactly one case.

Main results:

- `execute_reference`: when a parse succeeds, with which values, when it fails, and when
  it is aborted.
-/

namespace Peg

open Text Reference

variable {V : Type}

/-- From the start of a text, a rule ends in a certain way. -/
def Reference.Parses (grammar : Grammar V) (text : List Char) (root : RuleId)
    (ending : Ending V) : Prop :=
  Runs grammar text root (.expr (.rule root)) (.start text) ending

/-- The answer that an ending stands for, as far as the reference semantics goes. -/
inductive Reference.Answers (grammar : Grammar V) (source : Source) :
    Ending V → Except ParseError (Outcome V) → Prop
  | succeeded {left : State V} {success : Success V} (hend : left.cursor.rest = [])
      (hvalues : success.values = left.memory.values.reverse) :
      Answers grammar source (.matched left) (.ok (.succeeded success))
  | stopped {left : State V} (failure : Failure V) (hrest : left.cursor.rest ≠ []) :
      Answers grammar source (.matched left) (.ok (.failed failure))
  | failed (left : State V) (failure : Failure V) :
      Answers grammar source (.mismatched left) (.ok (.failed failure))
  | aborted (rule : RuleId) (offset : Nat) (cause : ActionError) :
      Answers grammar source (.aborted rule offset cause)
        (.error (.action (grammar.ruleName rule) (source.position offset) cause))

/-- A first pass starts where the reference semantics does. -/
theorem plain_start (env : Env V) : (Machine.start env).plain = .start env.source.text :=
  rfl

/-- Unless the limit of nesting is reached, a parse that remembers no mismatches answers
what an ending of its rule stands for. -/
theorem answers_execute {grammar : Grammar V} {known : RuleId → Bool}
    (haccepted : grammar.Accepted known) {root : RuleId} {definition : Rule V}
    (hroot : grammar.rule? root = some definition) (settings : Settings)
    (hmemoization : settings.memoization = false) {source : Source}
    (hsize : source.size = byteSize source.text)
    (hlimit : ∀ limit position,
      (execute grammar settings source root).result ≠ .error (.recursionLimit limit position)) :
    ∃ ending, Parses grammar source.text root ending ∧
      Answers grammar source ending (execute grammar settings source root).result := by
  have hends : Eval.Ends ⟨grammar, source, settings, .first⟩
      (Runs grammar source.text root (.expr (.rule root))
        (Machine.start ⟨grammar, source, settings, .first⟩).plain)
      (runPass ⟨grammar, source, settings, .first⟩ root) :=
    Eval.ends_invoke rfl haccepted hsize hmemoization settings.maxDepth hroot _ (valid_start _)
  rw [plain_start] at hends
  generalize hrun : runPass ⟨grammar, source, settings, .first⟩ root = outcome at hends
  rcases outcome with ⟨_ | _ | error, left⟩
  · refine ⟨_, hends, ?_⟩
    rw [result_of_matched hroot hrun]
    by_cases hend : left.cursor.atEnd = true
    · rw [if_pos hend]
      exact .succeeded (List.isEmpty_iff.1 hend) rfl
    · rw [if_neg hend]
      rcases result_fail ⟨grammar, source, settings, .first⟩ root _ with ⟨_, _, hfail⟩
      rw [hfail]
      exact .stopped _ fun hrest => hend (List.isEmpty_iff.2 hrest)
  · refine ⟨_, hends, ?_⟩
    rw [result_of_mismatched hroot hrun]
    rcases result_fail ⟨grammar, source, settings, .first⟩ root left with ⟨_, _, hfail⟩
    rw [hfail]
    exact .failed _ _
  · rw [result_of_aborted hroot hrun] at hlimit ⊢
    rcases hends with ⟨limit, position, rfl⟩ | ⟨rule, offset, cause, rfl, hruns⟩
    · exact absurd rfl (hlimit limit position)
    · exact ⟨_, hruns, .aborted rule offset cause⟩

/-- For a grammar that was built, unless the limit of nesting is reached, a parse that
remembers no mismatches succeeds with certain values exactly if its rule matches the
whole text and leaves these values; it fails exactly if its rule mismatches or matches
less than the text; and it is aborted exactly if an action fails, under the name of the
innermost rule and at the end of what the action saw. -/
theorem execute_reference {draft : Draft V} {grammar : Grammar V}
    (hbuild : draft.build = .ok grammar) {root : RuleId} {definition : Rule V}
    (hroot : grammar.rule? root = some definition) (settings : Settings)
    (hmemoization : settings.memoization = false) (segments : List Segment)
    (hlimit : ∀ limit position,
      (execute grammar settings (.ofSegments segments) root).result ≠
        .error (.recursionLimit limit position)) :
    (∀ values,
      (∃ success, (execute grammar settings (.ofSegments segments) root).result =
          .ok (.succeeded success) ∧ success.values = values) ↔
        ∃ left, Parses grammar (annotatedText segments) root (.matched left) ∧
          left.cursor.rest = [] ∧ left.memory.values.reverse = values) ∧
    ((∃ failure, (execute grammar settings (.ofSegments segments) root).result =
        .ok (.failed failure)) ↔
      (∃ left, Parses grammar (annotatedText segments) root (.mismatched left)) ∨
        ∃ left, Parses grammar (annotatedText segments) root (.matched left) ∧
          left.cursor.rest ≠ []) ∧
    ∀ error,
      (execute grammar settings (.ofSegments segments) root).result = .error error ↔
        ∃ rule offset cause,
          error = .action (grammar.ruleName rule)
            ((Source.ofSegments segments).position offset) cause ∧
          Parses grammar (annotatedText segments) root (.aborted rule offset cause) := by
  rcases answers_execute (Draft.accepted_of_build hbuild) hroot settings hmemoization
    (Source.size_ofSegments segments) hlimit with ⟨ending, hparses, hanswers⟩
  have hunique : ∀ other, Parses grammar (annotatedText segments) root other ↔ other = ending :=
    fun other => ⟨fun hother => hother.deterministic hparses, fun heq => heq ▸ hparses⟩
  simp only [hunique]
  generalize (execute grammar settings (.ofSegments segments) root).result = result at hanswers ⊢
  cases hanswers with
  | succeeded hend hvalues => simp [hend, hvalues]
  | stopped failure hrest => simp [hrest]
  | failed left failure => simp
  | aborted rule offset cause =>
      refine ⟨by simp, by simp, fun error => ?_⟩
      constructor
      · rintro ⟨⟩
        exact ⟨rule, offset, cause, rfl, rfl⟩
      · rintro ⟨_, _, _, rfl, ⟨⟩⟩
        rfl

/-- A grammar that leaves a value for every character up to a stop. -/
def tally : Grammar Nat where
  rules := #[
    ⟨"tick", .seq [.any, .action fun _ => .perform (.push 1) fun _ => .done true], {}⟩,
    ⟨"tally", .seq [.star (.seq [.notAhead (.char '.'), .rule ⟨0⟩]), .char '.'], {}⟩]

theorem execute_reference_tally :
    ∃ left, Parses tally (annotatedText [.kept ['a', 'b', '.']]) ⟨1⟩ (.matched left) ∧
      left.cursor.rest = [] ∧ left.memory.values.reverse = [1, 1] := by
  let first : RuleId × Draft Nat := Draft.empty.rule "tick"
    (.seq [.any, .action fun _ => .perform (.push 1) fun _ => .done true])
  have hbuild : (first.2.rule "tally"
      (.seq [.star (.seq [.notAhead (.char '.'), .rule first.1]), .char '.'])).2.build =
        .ok tally := by
    cbv
  have hresult : (execute tally { memoization := false } (.ofSegments [.kept ['a', 'b', '.']])
      ⟨1⟩).result = .ok (.succeeded ⟨⟨3, 0, 3⟩, [1, 1], none, ⟨3, 0, 0, 0, 2, 2, 0⟩⟩) := by
    cbv
  have hlimit : ∀ limit position,
      (execute tally { memoization := false } (.ofSegments [.kept ['a', 'b', '.']]) ⟨1⟩).result ≠
        .error (.recursionLimit limit position) := by
    intro limit position herror
    rw [hresult] at herror
    cases herror
  have hparses := (execute_reference hbuild rfl { memoization := false } rfl
    [.kept ['a', 'b', '.']] hlimit).1 [1, 1]
  exact hparses.1 ⟨_, hresult, rfl⟩

end Peg
