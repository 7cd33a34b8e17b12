import Mathlib
import Peg.Proofs.Memo.Settling
import Peg.Proofs.Parse.FirstPass
import Peg.Proofs.Repair.Idle

/-!
# Repairing passes that repair nothing

A repairing pass in which no repair is made comes to what the first pass came to: it may
try the alternatives of a choice twice and remember other mismatches, but its verdict,
the values, the tree and the place it stops at are the same.  As the first pass has
failed, nothing complete can be recovered without a repair.

Main results:

- `runPass_unrepaired`: the two passes end alike.
- `recovered_unrepaired`: what is recovered without repairs is what the first pass left
  behind.
-/

namespace Peg

open Text

variable {V : Type} {grammar : Grammar V} {settings : Settings} {source : Source} {root : RuleId}

/-- The environment of the second pass of a parse: repairs are made from the place on at
which the first pass failed. -/
def secondPass (grammar : Grammar V) (settings : Settings) (source : Source) (root : RuleId) :
    Env V :=
  let env : Env V := ⟨grammar, source, settings, .first⟩
  { env with pass := .repair (reportedFrom env (runPass env root)).frontier.position }

/-- What was recovered stops short of the end of the text, and is what a pass left
behind. -/
structure Recovered.LeftBy (recovered : Recovered V) (env : Env V) (root : RuleId)
    (m : Machine V) : Prop where
  stop_eq : recovered.stop = env.source.position m.offset
  incomplete : recovered.complete = false
  values_eq : recovered.values = m.stack.toList
  tree_eq : recovered.tree? = parseTree? env root m

/-! ## Both passes -/

/-- A repairing pass without repairs ends as the first pass does. -/
theorem runPass_unrepaired (hvars : grammar.Admits Action.VariableFree)
    (hignores : grammar.Admits Action.IgnoresRecovery)
    (hmemo : settings.memoization = true → grammar.MemoActionFree) {errorOffset : Nat}
    (hfirst : ∀ error, (runPass ⟨grammar, source, settings, .first⟩ root).1 ≠ .aborted error)
    (hlimited : (runPass ⟨grammar, source, settings, .repair errorOffset⟩ root).1.limited = false)
    (hnone : (runPass ⟨grammar, source, settings, .repair errorOffset⟩ root).2.gaps = []) :
    (runPass ⟨grammar, source, settings, .repair errorOffset⟩ root).1 =
        (runPass ⟨grammar, source, settings, .first⟩ root).1 ∧
      (runPass ⟨grammar, source, settings, .repair errorOffset⟩ root).2.Agrees
        (runPass ⟨grammar, source, settings, .first⟩ root).2 := by
  have hlimited' : (runPass ⟨grammar, source, settings, .first⟩ root).1.limited = false :=
    Verdict.limited_eq_false_iff.2 fun _ _ => hfirst _
  rcases mirrors_runPass_memo hmemo hvars hlimited with ⟨o, hsettles, halike⟩
  rcases mirrors_runPass_memo hmemo hvars hlimited' with ⟨o', hsettles', halike'⟩
  rcases hsettles.exists_derives with ⟨a, made, hmade⟩
  -- Without a memo, what the repairing pass comes to is settled in the first pass as well.
  have hlaw : Reflects
      (Env.memoizing ⟨grammar, source, settings, .repair errorOffset⟩ false)
      (Env.memoizing ⟨grammar, source, settings, .first⟩ false)
      (fun action => action.VariableFree ∧ action.IgnoresRecovery) (Eval.unrepaired V) :=
    Eval.reflects_unrepaired rfl rfl
  have hadmits : grammar.Admits fun action => action.VariableFree ∧ action.IgnoresRecovery :=
    fun id rule hrule action hmem =>
      ⟨hvars id rule hrule action hmem, hignores id rule hrule action hmem⟩
  have hstart := valid_start (⟨grammar, source, settings, .first⟩ : Env V)
  rcases hlaw.mirrors (fun _ hallows => hallows.1) hadmits hmade trivial
    (halike.verdict_eq ▸ hlimited) (halike.gaps_eq.trans hnone)
    ⟨⟨hstart.within, hstart.vars⟩, .refl _, trivial, trivial⟩ with ⟨o₂, hsettles₂, halike₂⟩
  obtain rfl : o₂ = o' := hsettles₂.unique hsettles'
  have hverdict : (runPass ⟨grammar, source, settings, .repair errorOffset⟩ root).1 =
      (runPass ⟨grammar, source, settings, .first⟩ root).1 := by
    rw [← halike.verdict_eq, ← halike₂.verdict_eq, halike'.verdict_eq]
  refine ⟨hverdict, ?_⟩
  have hends : ∀ error,
      (runPass ⟨grammar, source, settings, .repair errorOffset⟩ root).1 ≠ .aborted error :=
    hverdict ▸ hfirst
  exact (halike.agrees hends).trans ((halike₂.agrees (halike.verdict_eq ▸ hends)).trans
    (halike'.agrees hfirst).symm)

/-- Where no repairs are allowed none are made. -/
theorem gaps_runPass_of_none_allowed {env : Env V} (hzero : env.settings.maxRecoveredErrors = 0)
    (root : RuleId) : (runPass env root).2.gaps = [] := by
  rcases exists_passMakes env root with ⟨made, hmade⟩
  have hstart : (passStart env).gaps = [] := by
    rw [passStart_eq]
    rfl
  rcases hmade.grows.allowed with hsame | hallowed
  · exact hsame.trans hstart
  · rw [hzero, Nat.le_zero] at hallowed
    exact List.eq_nil_of_length_eq_zero hallowed

/-! ## What is recovered -/

/-- What is recovered from a pass that ended as a first one which has failed. -/
theorem leftBy_of_agrees {errorOffset : Nat} {o o' : Verdict × Machine V} (hshort : FailedShort o)
    (hverdict : o'.1 = o.1) (hagrees : o'.2.Agrees o.2) :
    ((recoveredFrom? ⟨grammar, source, settings, .repair errorOffset⟩ root o').isSome ↔
        o.1 = .matched) ∧
      ∀ recovered,
        recoveredFrom? ⟨grammar, source, settings, .repair errorOffset⟩ root o' = some recovered →
          recovered.LeftBy ⟨grammar, source, settings, .first⟩ root o.2 := by
  rcases o with ⟨verdict, m⟩
  rcases o' with ⟨verdict', left⟩
  obtain rfl : verdict' = verdict := hverdict
  cases verdict' with
  | matched =>
      have hrest : m.cursor.atEnd = false := by
        rcases hshort with hmismatched | ⟨-, hrest⟩
        · cases hmismatched
        · exact hrest
      refine ⟨by simp [recoveredFrom?], ?_⟩
      rintro recovered ⟨⟩
      rcases hagrees with ⟨_, _, _, _, _, _, _, rfl⟩
      exact ⟨rfl, hrest, rfl, rfl⟩
  | mismatched => exact ⟨by simp [recoveredFrom?], nofun⟩
  | aborted error => exact ⟨by simp [recoveredFrom?], nofun⟩

/-- What is recovered comes from a match, and has all repairs of its pass. -/
theorem exists_of_recoveredFrom? {env : Env V} {o : Verdict × Machine V} {recovered : Recovered V}
    (h : recoveredFrom? env root o = some recovered) :
    o.1 = .matched ∧ recovered.gaps = o.2.gaps.reverse := by
  rcases recoveredFrom?_eq_some_iff.1 h with ⟨left, rfl, rfl⟩
  exact ⟨rfl, rfl⟩

/-- If the second pass of a parse makes no repair, something is recovered exactly if the
first pass matched, and it is what that left behind, which is not complete.  So nothing
complete is recovered without repairs; and none are made if none are allowed. -/
theorem recovered_unrepaired {failure : Failure V} (hvars : grammar.Admits Action.VariableFree)
    (hignores : grammar.Admits Action.IgnoresRecovery)
    (hmemo : settings.memoization = true → grammar.MemoActionFree)
    (hrecovery : settings.recovery = true)
    (hfailed : (execute grammar settings source root).result = .ok (.failed failure)) :
    ((∀ limit position, (runPass (secondPass grammar settings source root) root).1 ≠
          .aborted (.recursionLimit limit position)) →
        (runPass (secondPass grammar settings source root) root).2.gaps = [] →
          (failure.recovered?.isSome ↔
            (runPass ⟨grammar, source, settings, .first⟩ root).1 = .matched) ∧
          ∀ recovered, failure.recovered? = some recovered →
            recovered.LeftBy ⟨grammar, source, settings, .first⟩ root
              (runPass ⟨grammar, source, settings, .first⟩ root).2) ∧
      (settings.maxRecoveredErrors = 0 →
        (runPass (secondPass grammar settings source root) root).2.gaps = []) ∧
      ∀ recovered, failure.recovered? = some recovered → recovered.complete = true →
        recovered.gaps ≠ [] := by
  rcases exists_of_failed hfailed with ⟨hshort, errorOffset, rfl, -, hrecovered⟩
  rw [if_pos hrecovery] at hrecovered
  change _ = recoveredFrom? (secondPass grammar settings source root) root
    (runPass (secondPass grammar settings source root) root) at hrecovered
  have hleft (hlimit : (runPass (secondPass grammar settings source root) root).1.limited = false)
      (hnone : (runPass (secondPass grammar settings source root) root).2.gaps = []) :
      (failure.recovered?.isSome ↔
          (runPass ⟨grammar, source, settings, .first⟩ root).1 = .matched) ∧
        ∀ recovered, failure.recovered? = some recovered →
          recovered.LeftBy ⟨grammar, source, settings, .first⟩ root
            (runPass ⟨grammar, source, settings, .first⟩ root).2 := by
    rcases runPass_unrepaired hvars hignores hmemo hshort.ne_aborted hlimit hnone
      with ⟨hverdict, hagrees⟩
    rw [hrecovered]
    exact leftBy_of_agrees hshort hverdict hagrees
  refine ⟨fun hlimit => hleft (Verdict.limited_eq_false_iff.2 hlimit), fun hzero =>
    gaps_runPass_of_none_allowed hzero root, ?_⟩
  intro recovered hsome hcomplete hnil
  rcases exists_of_recoveredFrom? (hrecovered.symm.trans hsome) with ⟨hmatched, hgaps⟩
  have hlimit : (runPass (secondPass grammar settings source root) root).1.limited = false := by
    rw [hmatched]
    rfl
  have hnone : (runPass (secondPass grammar settings source root) root).2.gaps = [] :=
    List.reverse_eq_nil_iff.1 (hgaps.symm.trans hnil)
  have hleftBy := (hleft hlimit hnone).2 recovered hsome
  cases hleftBy.incomplete.symm.trans hcomplete

/-- A grammar in which a longer alternative may be tried in vain before a shorter one. -/
def shortened : Grammar Nat where
  rules := #[
    ⟨"start", .seq [.choice [.seq [.char 'a', .char 'b'], .char 'a'],
      .action fun _ => do Program.push 1; return true], {}⟩]

theorem admits_shortened {allows : Action Nat → Prop}
    (h : allows fun _ => do Program.push 1; return true) : shortened.Admits allows := by
  rintro ⟨_ | index⟩ rule hrule action hmem
  · cases hrule
    have haction : action = fun _ => do Program.push 1; return true := by
      simpa [shortened, Expr.subterms, Expr.subtermsOf] using hmem
    exact haction ▸ h
  · cases hrule

theorem recovered_unrepaired_shortened :
    ∃ failure recovered,
      (execute shortened { recovery := true } (.plain ['a', 'c']) ⟨0⟩).result =
        .ok (.failed failure) ∧
      failure.recovered? = some recovered ∧ recovered.values = [1] ∧
      recovered.complete = false := by
  have hunmarked : shortened.MemoActionFree := by
    rintro ⟨_ | index⟩ rule hrule hmarked
    · cases hrule
      cases hmarked
    · cases hrule
  have hpass : secondPass shortened { recovery := true } (.plain ['a', 'c']) ⟨0⟩ =
      ⟨shortened, .plain ['a', 'c'], { recovery := true }, .repair 1⟩ := by
    have hposition : (reportedFrom ⟨shortened, .plain ['a', 'c'], { recovery := true }, .first⟩
        (runPass ⟨shortened, .plain ['a', 'c'], { recovery := true }, .first⟩
          ⟨0⟩)).frontier.position = 1 := by cbv
    rw [secondPass]
    dsimp only
    rw [hposition]
  have hmatched :
      (runPass ⟨shortened, .plain ['a', 'c'], { recovery := true }, .repair 1⟩ ⟨0⟩).1 =
        .matched := by cbv
  have hnone :
      (runPass ⟨shortened, .plain ['a', 'c'], { recovery := true }, .repair 1⟩ ⟨0⟩).2.gaps =
        [] := by cbv
  rw [← hpass] at hmatched hnone
  have hlimit : ∀ limit position,
      (runPass (secondPass shortened { recovery := true } (.plain ['a', 'c']) ⟨0⟩) ⟨0⟩).1 ≠
        .aborted (.recursionLimit limit position) := by
    intro limit position haborted
    cases hmatched.symm.trans haborted
  have hfailed :
      (execute shortened { recovery := true } (.plain ['a', 'c']) ⟨0⟩).result =
        .ok (.failed ⟨⟨1, 0, 1⟩, ["'b'", "EOI"], some 'c',
          some ⟨⟨1, 0, 1⟩, false, [1], [], none⟩, ⟨2, 2, 0, 0, 2, 1, 0⟩⟩) := by
    cbv
  have hleft := (recovered_unrepaired (admits_shortened fun _ => ⟨rfl, fun _ => trivial⟩)
    (admits_shortened fun _ _ => rfl) (fun _ => hunmarked) rfl hfailed).1 hlimit hnone
  exact ⟨_, _, hfailed, rfl, rfl, (hleft.2 _ rfl).incomplete⟩

end Peg
