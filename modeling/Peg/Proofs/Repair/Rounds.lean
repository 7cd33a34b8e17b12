import Mathlib
import Peg.Proofs.Repair.Idle
import Peg.Proofs.Repair.Noted
import Peg.Proofs.Repair.Reached

/-!
# The rounds of a choice

In a repairing pass a choice tries its alternatives without repairs first, and tries
them again with repairs only if one was refused.  What it comes to is this: if the
alternatives match without repairs, that match; otherwise, what they come to with
repairs.  The second round is left out only where it would come to nothing new.

Main results:

- `Derives.alike`: parses that remember different mismatches, all of them true, come to
  the same.
- `choice_rounds`: what a choice comes to, wherever a pass gets to it.
-/

namespace Peg

open Text Eval

variable {V : Type} {env : Env V} {a b : Nat} {task : Task V} {items : List (Expr V)}
variable {m n left : Machine V} {o o' : Verdict × Machine V} {made made' madeOn : List StandIn}

/-! ## Comparing rounds -/

section Comparing

variable (hmemo : env.settings.memoization = true → env.grammar.MemoActionFree)
variable (hgrammar : env.grammar.Admits Action.VariableFree)

include hmemo hgrammar

/-- Parses from machines that agree come to the same, whatever they remember. -/
theorem Derives.alike (h : Derives env a task m o made) (h' : Derives env b task n o' made')
    (htask : task.Admits Action.VariableFree)
    (hlimited : o.1.limited = false) (hlimited' : o'.1.limited = false)
    (hready : (memoManner env).Ready env m n) (hsound : Remembers env n.memo) :
    o'.1 = o.1 ∧ ((∀ error, o.1 ≠ .aborted error) → o.2.Agrees o'.2) := by
  rcases h.settles_memo hmemo hgrammar htask hlimited hready with ⟨o₁, hsettles, halike⟩
  rcases h'.settles_memo hmemo hgrammar htask hlimited'
    (ready_of_remembers (hready.agrees.valid hready.valid) hsound) with ⟨o₂, hsettles', halike'⟩
  obtain rfl : o₁ = o₂ := hsettles.unique hsettles'
  have hverdict : o'.1 = o.1 := halike'.verdict_eq.symm.trans halike.verdict_eq
  refine ⟨hverdict, fun hends => (halike.agrees hends).trans (halike'.agrees ?_).symm⟩
  exact hverdict ▸ hends

/-- If no repair was refused in a first round that did not match, the alternatives do not
match with repairs either. -/
theorem Derives.alike_skipped
    (h : Derives env a (.alternatives items) (openRound m) (.mismatched, left) made)
    (hnone : left.wouldInsert = false) (h' : Derives env b (.alternatives items) m o made')
    (hitems : ∀ item ∈ items, item.Admits Action.VariableFree) (hlimited : o.1.limited = false)
    (hready : (memoManner env).Ready env m m) : o.1 = .mismatched ∧ left.Agrees o.2 := by
  rcases (h.settles_memo hmemo hgrammar hitems rfl (ready_openRound_memo hready)).exists_mismatched
    with ⟨left', hsettles, halong⟩
  rcases hsettles.exists_derives with ⟨_, _, hmade⟩
  have hfine : left'.mayInsert = false ∧ left'.wouldInsert = false := by
    rcases halong.notes trivial with ⟨refused, hl, hl'⟩
    exact ⟨hmade.grows.mayInsert, hl'.trans (hl.symm.trans hnone)⟩
  have hopen : (unrefused V).Ready (env.memoizing false) (openRound m) m :=
    ⟨⟨hready.valid.within, hready.valid.vars⟩, (Machine.agrees_openRound m).symm, rfl, trivial⟩
  have hlaw : Reflects (env.memoizing false) (env.memoizing false) Action.VariableFree
      (unrefused V) := reflects_unrefused rfl _
  have hmirrors := hlaw.mirrors (fun _ hfree => hfree) hgrammar hmade hitems rfl hfine hopen
  rcases hmirrors.exists_mismatched with ⟨left₁, hsettles₁, halong₁⟩
  rcases h'.settles_memo hmemo hgrammar hitems hlimited hready with ⟨o₂, hsettles₂, halike₂⟩
  obtain rfl : (.mismatched, left₁) = o₂ := hsettles₁.unique hsettles₂
  have hverdict : o.1 = .mismatched := halike₂.verdict_eq.symm
  refine ⟨hverdict, halong.agrees.trans (halong₁.agrees.trans (halike₂.agrees ?_).symm)⟩
  rw [hverdict]
  nofun

/-- A second round comes to what the alternatives come to with repairs from the start. -/
theorem Derives.alike_noted (htwo : takesTwoRounds env m = true)
    (h : Derives env a (.alternatives items) (openRound m) (.mismatched, left) made)
    (hagain : Derives env a (.alternatives items) (undoRound m left) o' made')
    (h' : Derives env b (.alternatives items) m o madeOn)
    (hitems : ∀ item ∈ items, item.Admits Action.VariableFree) (hlimited : o.1.limited = false)
    (hlimited' : o'.1.limited = false) (hready : (memoManner env).Ready env m m) :
    o'.1 = o.1 ∧ ((∀ error, o.1 ≠ .aborted error) → o.2.Agrees o'.2) := by
  have hundone : m.Agrees (undoRound m left) :=
    Machine.agrees_undoRound hready.valid htwo h (h.vars_eq hgrammar hitems)
  have hswitch : (undoRound m left).mayInsert = m.mayInsert :=
    (Machine.mayInsert_of_takesTwoRounds htwo).symm
  have hleft : (memoManner env).Ready env left left :=
    ready_of_run hmemo hgrammar h.run_eq hitems (ready_openRound_memo hready) nofun
  exact h'.alike hmemo hgrammar hagain hitems hlimited hlimited'
    ⟨hready.valid, hundone, hswitch, hready.sound⟩ hleft.sound

end Comparing

/-- Alternatives that do not match need not be taken back. -/
theorem rewinding_alternatives (h : Derives env a (.alternatives items) n o made)
    (hcursor : n.cursor = m.cursor) (hnodes : n.nodes = m.nodes) :
    rewinding (fun _ => o) m = o := by
  rcases o with ⟨_ | _ | error, l⟩
  · rfl
  · rcases alternatives_mismatched h.run_eq with ⟨hcursor', hnodes'⟩
    rw [hcursor] at hcursor'
    rw [hnodes] at hnodes'
    rw [rewinding, ← hcursor', ← hnodes']
  · rfl

/-! ## What a choice comes to -/

/-- A choice whose alternatives match without repairs. -/
theorem choice_of_matched (htwo : takesTwoRounds env m = true)
    (h : Derives env a (.alternatives items) (openRound m) (.matched, left) made) :
    (Task.expr (.choice items)).run env a m = (.matched, keepRound m left) :=
  (Derives.choice_first htwo h nofun).run_eq

/-- A choice whose alternatives do not match without repairs, and none was refused. -/
theorem choice_of_skipped (htwo : takesTwoRounds env m = true)
    (h : Derives env a (.alternatives items) (openRound m) (.mismatched, left) made)
    (hnone : left.wouldInsert = false) :
    (Task.expr (.choice items)).run env a m = (.mismatched, keepRound m left) := by
  have hends : ¬ (Verdict.mismatched = .mismatched ∧ left.wouldInsert = true) := by simp [hnone]
  rcases alternatives_mismatched h.run_eq with ⟨hcursor, hnodes⟩
  rw [(Derives.choice_first htwo h hends).run_eq, rewinding]
  refine Prod.ext rfl ?_
  change { keepRound m left with cursor := m.cursor, nodes := m.nodes } = keepRound m left
  rw [← (show (keepRound m left).cursor = m.cursor from hcursor),
    ← (show (keepRound m left).nodes = m.nodes from hnodes)]

/-- A choice whose alternatives are tried again. -/
theorem choice_of_noted (htwo : takesTwoRounds env m = true)
    (h : Derives env a (.alternatives items) (openRound m) (.mismatched, left) made)
    (hnoted : left.wouldInsert = true)
    (hagain : Derives env a (.alternatives items) (undoRound m left) o made') :
    (Task.expr (.choice items)).run env a m = o := by
  rcases alternatives_mismatched h.run_eq with ⟨hcursor, hnodes⟩
  exact (Derives.choice_second htwo h hnoted hagain).run_eq.trans
    (rewinding_alternatives hagain hcursor hnodes)

/-- Wherever a repairing pass gets to a choice outside of lookahead with repairs switched
on, the choice comes to the match of its alternatives without repairs, and makes none; or
else to what its alternatives come to with repairs. -/
theorem choice_rounds {root : RuleId} {errorOffset : Nat} (hpass : env.pass = .repair errorOffset)
    (hvars : env.grammar.Admits Action.VariableFree)
    (hmemo : env.settings.memoization = true → env.grammar.MemoActionFree)
    (hreached : Reached env root a (.expr (.choice items)) m) (hprobes : m.probes = 0)
    (hon : m.mayInsert = true)
    (hends : ∀ error, ((Task.expr (.choice items)).run env a m).1 ≠ .aborted error) :
    (∀ left,
      (Task.alternatives items).run env a { m with mayInsert := false } = (.matched, left) →
        ∃ l, (Task.expr (.choice items)).run env a m = (.matched, l) ∧ left.Agrees l ∧
          l.gaps = m.gaps) ∧
      (((Task.alternatives items).run env a { m with mayInsert := false }).1 ≠ .matched →
        (∀ error, ((Task.alternatives items).run env a m).1 ≠ .aborted error) →
          ((Task.expr (.choice items)).run env a m).1 = ((Task.alternatives items).run env a m).1 ∧
            ((Task.alternatives items).run env a m).2.Agrees
              ((Task.expr (.choice items)).run env a m).2) := by
  have htwo : takesTwoRounds env m = true := by
    simp [takesTwoRounds, hpass, Pass.isRepair, hprobes, hon]
  rcases hreached.ready hmemo hvars with ⟨htask, hready⟩
  have hitems : ∀ item ∈ items, item.Admits Action.VariableFree :=
    fun _ hpart => Expr.Admits.part htask hpart
  rcases exists_derives env a (.alternatives items) (openRound m) with ⟨made, hround⟩
  rcases exists_derives env a (.alternatives items) m with ⟨madeOn, hagain⟩
  have hsame := alike_openRound env a items hready.valid rfl rfl
  generalize (Task.alternatives items).run env a (openRound m) = first at hround hsame
  generalize (Task.alternatives items).run env a { m with mayInsert := false } = off at hsame ⊢
  generalize (Task.alternatives items).run env a m = on at hagain ⊢
  rcases first with ⟨_ | _ | error, left⟩
  · -- The first round matched.
    rcases hsame (by simp) with ⟨hoff, hagrees⟩
    refine ⟨?_, fun hnot => absurd hoff hnot⟩
    rintro left' rfl
    exact ⟨_, choice_of_matched htwo hround,
      hagrees.symm.trans (Machine.agrees_keepRound m left), hround.grows.gaps_off rfl⟩
  · -- The first round did not match.
    rcases hsame (by simp) with ⟨hoff, -⟩
    refine ⟨?_, fun _ hends' => ?_⟩
    · rintro left' rfl
      cases hoff
    · have hlimited : on.1.limited = false := Verdict.limited_eq_false_iff.2 fun _ _ => hends' _
      by_cases hnoted : left.wouldInsert = true
      · rcases exists_derives env a (.alternatives items) (undoRound m left) with ⟨later, hsecond⟩
        have hchoice := choice_of_noted htwo hround hnoted hsecond
        generalize (Task.alternatives items).run env a (undoRound m left) = again
          at hsecond hchoice
        rw [hchoice] at hends ⊢
        rcases hround.alike_noted hmemo hvars htwo hsecond hagain hitems hlimited
          (Verdict.limited_eq_false_iff.2 fun _ _ => hends _) hready with ⟨hverdict, hagrees⟩
        exact ⟨hverdict, hagrees hends'⟩
      · have hnone : left.wouldInsert = false := eq_false_of_ne_true hnoted
        rcases hround.alike_skipped hmemo hvars hnone hagain hitems hlimited hready
          with ⟨hverdict, hagrees⟩
        rw [choice_of_skipped htwo hround hnone]
        exact ⟨hverdict.symm, hagrees.symm.trans (Machine.agrees_keepRound m left)⟩
  · -- The first round was aborted, and so was the choice.
    have hchoice := (Derives.choice_first htwo hround (by simp)).run_eq
    exact absurd (congrArg Prod.fst hchoice) (hends error)

/-- A grammar of two pairs that begin alike. -/
def eitherPair : Grammar Nat where
  rules := #[
    ⟨"start", .choice [.seq [.char 'a', .char 'b'], .seq [.char 'a', .char 'c']], {}⟩]

theorem admits_eitherPair (allows : Action Nat → Prop) : eitherPair.Admits allows := by
  rintro ⟨_ | index⟩ rule hrule action hmem
  · cases hrule
    simp [eitherPair, Expr.subterms, Expr.subtermsOf] at hmem
  · cases hrule

/-- A repairing pass over a text with neither of the pairs in it. -/
def eitherPairRepair : Env Nat :=
  ⟨eitherPair, .plain ['a', 'd'], {}, .repair 1⟩

theorem choice_rounds_eitherPair :
    ∃ a m, ∃ items : List (Expr Nat),
      Reached eitherPairRepair ⟨0⟩ a (.expr (.choice items)) m ∧
      ((Task.alternatives items).run eitherPairRepair a { m with mayInsert := false }).1 =
        .mismatched ∧
      ((Task.alternatives items).run eitherPairRepair a m).1 = .matched ∧
      ((Task.expr (.choice items)).run eitherPairRepair a m).1 = .matched ∧
      ((Task.alternatives items).run eitherPairRepair a m).2.Agrees
        ((Task.expr (.choice items)).run eitherPairRepair a m).2 := by
  have hbegins : Begins eitherPairRepair 256 (.call ⟨0⟩) (passStart eitherPairRepair) 255 _ _ :=
    .body rfl rfl
  have hreached : Reached eitherPairRepair ⟨0⟩ 255 _ _ := .part .start hbegins
  generalize hm : enterRule _ _ _ = m at hreached
  have hoff : ((Task.alternatives [.seq [.char 'a', .char 'b'], .seq [.char 'a', .char 'c']]).run
      eitherPairRepair 255 { m with mayInsert := false }).1 = .mismatched := by
    subst hm
    cbv
  have hon : ((Task.alternatives [.seq [.char 'a', .char 'b'], .seq [.char 'a', .char 'c']]).run
      eitherPairRepair 255 m).1 = .matched := by
    subst hm
    cbv
  have hchoice : ((Task.expr (.choice [.seq [.char 'a', .char 'b'],
      .seq [.char 'a', .char 'c']])).run eitherPairRepair 255 m).1 = .matched := by
    subst hm
    cbv
  have hunmarked : eitherPair.MemoActionFree := by
    rintro ⟨_ | index⟩ rule hrule hmarked
    · cases hrule
      cases hmarked
    · cases hrule
  have hboth := choice_rounds rfl (admits_eitherPair _) (fun _ => hunmarked) hreached
    (by subst hm; rfl) (by subst hm; rfl) (by simp [hchoice])
  exact ⟨255, m, _, hreached, hoff, hon, hchoice, (hboth.2 (by simp [hoff]) (by simp [hon])).2⟩

end Peg
