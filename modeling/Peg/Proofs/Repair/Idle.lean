import Peg.Proofs.Parse.Mirror

/-!
# Evaluations that repair nothing

An evaluation with repairs switched off in which none was refused goes as it would go
with repairs switched on: there was nothing to repair.  A repairing pass in which no
repair was made goes as the first pass did, provided that actions neither change
variables nor ask which pass it is: where it tried the alternatives of a choice a second
time, the first round is forgotten.

Main results:

- `Eval.reflects_unrefused`: repairs that were not refused switched off are not made
  switched on.
- `Eval.reflects_unrepaired`: a repairing pass without repairs is mirrored by the first
  pass.
-/

namespace Peg

open Text

variable {V : Type}

namespace Eval

open Machine

variable {env : Env V} {m n l l' : Machine V} {items : List (Expr V)} {o : Verdict × Machine V}

/-! ## No repair refused -/

/-- With repairs switched off and none refused, a parse is mirrored by one with repairs
switched on or off. -/
def unrefused (V : Type) : Manner V where
  fine m := m.mayInsert = false ∧ m.wouldInsert = false
  switched mayInsert _ := mayInsert = false
  noted := True
  sound _ := True

theorem alike_missing_unrefused (e : Expr V) (h : (unrefused V).Ready env m n)
    (hfine : (unrefused V).fine (missing env e m).2) :
    (unrefused V).Alike m n (missing env e m) (missing env e n) := by
  have hoff : m.mayInsert = false := h.switched
  unfold missing at hfine ⊢
  split
  next => exact .mismatched (h.along.recordFailure _ _ _ _ _ _)
  next errorOffset hpass =>
      have hstand : mayStandIn env errorOffset e n = mayStandIn env errorOffset e m := by
        simp only [mayStandIn, h.agrees.probes_eq, h.agrees.offset_eq, h.agrees.committed_eq,
          h.agrees.inserted_eq]
      rw [hpass] at hfine
      rw [hstand]
      by_cases hmay : mayStandIn env errorOffset e m = true
      · simp [hmay, hoff, unrefused] at hfine
      · rw [if_neg hmay, if_neg hmay]
        exact .mismatched h.along

/-- If no repair was refused in the one run, none is noted in a first round of the
other. -/
theorem along_keepRound_unrefused (hnone : l.wouldInsert = false)
    (h : (unrefused V).Along m (openRound n) l l') :
    l'.wouldInsert = false ∧ (unrefused V).Along m n l (keepRound n l') := by
  rcases h.notes trivial with ⟨refused, hl, hl'⟩
  have hrefused : m.wouldInsert = false ∧ refused = false := by
    rwa [hl, Bool.or_eq_false_iff] at hnone
  rcases hrefused with ⟨hm, rfl⟩
  refine ⟨hl', h.agrees.trans (agrees_keepRound n l'), fun _ => ⟨false, hl, ?_⟩, trivial⟩
  exact (Bool.or_false _).symm

/-- A single round without repairs is mirrored by the first of two. -/
theorem mirrors_choice_unrefused (h : (unrefused V).Ready env m n) (hfine : (unrefused V).fine o.2)
    (hround : ∀ n', (unrefused V).Ready env m n' →
      (unrefused V).Mirrors env (.alternatives items) m n' o) :
    (unrefused V).Mirrors env (.expr (.choice items)) m n (rewinding (fun _ => o) m) := by
  by_cases htwo : takesTwoRounds env n = true
  · have hopen : (unrefused V).Ready env m (openRound n) :=
      ⟨h.valid, h.agrees.trans (agrees_openRound n), h.switched, trivial⟩
    rcases hround _ hopen with ⟨o', hsettles, halike⟩
    have hends : ¬ (o'.1 = .mismatched ∧ o'.2.wouldInsert = true) := by
      cases halike with
      | matched halong => nofun
      | aborted hgaps => nofun
      | mismatched halong =>
          rintro ⟨-, hnoted⟩
          rw [(along_keepRound_unrefused hfine.2 halong).1] at hnoted
          cases hnoted
    have hkeep : (unrefused V).Alike m n o (o'.1, keepRound n o'.2) := by
      cases halike with
      | matched halong => exact .matched (along_keepRound_unrefused hfine.2 halong).2
      | mismatched halong => exact .mismatched (along_keepRound_unrefused hfine.2 halong).2
      | @aborted error l l' hgaps =>
          exact .aborted ((agrees_keepRound n l').gaps_eq.trans hgaps)
    exact ⟨_, hsettles.of fun hmade => ⟨_, .choice_first htwo hmade hends⟩,
      hkeep.rewinding h.agrees⟩
  · exact (hround n h).choice_once (eq_false_of_ne_true htwo) h.agrees

/-- Repairs that were not refused switched off are not made switched on. -/
theorem reflects_unrefused (hmemo : env.settings.memoization = false) (allows : Action V → Prop) :
    Reflects env env allows (unrefused V) where
  grammar_eq := rfl
  source_eq := rfl
  memo_off := hmemo
  fine_of_grows := by
    rintro m l hgrows ⟨hoff, hnone⟩
    rw [hgrows.mayInsert] at hoff
    refine ⟨hoff, Bool.eq_false_iff.2 fun hnoted => ?_⟩
    rw [hgrows.noted_off hoff hnoted] at hnone
    cases hnone
  missing e h hfine := alike_missing_unrefused e h hfine
  action_eq _ _ _ := rfl
  hit _ hknown _ := by
    rw [known?_eq_none hmemo] at hknown
    cases hknown
  remember _ _ _ _ := trivial
  choice_once _ h hfine hround := mirrors_choice_unrefused h hfine hround
  choice_first htwo h := absurd ((mayInsert_of_takesTwoRounds htwo).symm.trans h.switched) nofun
  choice_second htwo h := absurd ((mayInsert_of_takesTwoRounds htwo).symm.trans h.switched) nofun

/-! ## No repair made -/

/-- Without repairs made, a repairing pass is mirrored by the first one. -/
def unrepaired (V : Type) : Manner V where
  fine m := m.gaps = []
  switched _ _ := True
  noted := False
  sound _ := True

/-- A terminal that is missing and was not stood in for changes nothing to speak of. -/
theorem missing_unrepaired {e : Expr V} {errorOffset : Nat} (hpass : env.pass = .repair errorOffset)
    (hnone : (missing env e m).2.gaps = []) :
    (missing env e m).1 = .mismatched ∧ m.Agrees (missing env e m).2 := by
  unfold missing at hnone ⊢
  rw [hpass] at hnone ⊢
  dsimp only at hnone ⊢
  by_cases hstand : mayStandIn env errorOffset e m = true
  · by_cases hon : m.mayInsert = true
    · simp [hstand, hon, Machine.insert] at hnone
    · rw [if_pos hstand, if_neg hon]
      exact ⟨rfl, _, _, _, _, _, _, _, rfl⟩
  · rw [if_neg hstand]
    exact ⟨rfl, .refl m⟩

theorem alike_missing_unrepaired (e : Expr V) {errorOffset : Nat}
    (hpass : env.pass = .repair errorOffset) (h : (unrepaired V).Ready env m n)
    (hfine : (unrepaired V).fine (missing env e m).2) :
    (unrepaired V).Alike m n (missing env e m) (missing { env with pass := .first } e n) := by
  rcases missing_unrepaired hpass hfine with ⟨hverdict, hleft⟩
  have hright : n.Agrees (n.recordFailure { env with pass := .first } n.offset (.terminal e)) := by
    rw [recordFailure_eq]
    exact ⟨_, _, _, _, _, _, _, rfl⟩
  rw [show missing env e m = (.mismatched, (missing env e m).2) from Prod.ext hverdict rfl]
  exact .mismatched ⟨hleft.symm.trans (h.agrees.trans hright), nofun, trivial⟩

/-- Where the comparison started, and what is done with the stack and the switch in the
end, does not matter. -/
theorem mirrors_unrepaired {k : Machine V} (hleft : o.2.Agrees l)
    (h : (unrepaired V).Mirrors env (.alternatives items) k n o) :
    (unrepaired V).Mirrors env (.alternatives items) m n (o.1, l) := by
  rcases h with ⟨o', hsettles, halike⟩
  refine ⟨o', hsettles, ?_⟩
  cases halike with
  | matched halong => exact .matched ⟨hleft.symm.trans halong.agrees, nofun, trivial⟩
  | mismatched halong => exact .mismatched ⟨hleft.symm.trans halong.agrees, nofun, trivial⟩
  | aborted hgaps => exact .aborted (hgaps.trans hleft.gaps_eq.symm)

/-- Without repairs a repairing pass is mirrored by the first pass. -/
theorem reflects_unrepaired (hmemo : env.settings.memoization = false) {errorOffset : Nat}
    (hpass : env.pass = .repair errorOffset) :
    Reflects env { env with pass := .first }
      (fun action => action.VariableFree ∧ action.IgnoresRecovery) (unrepaired V) where
  grammar_eq := rfl
  source_eq := rfl
  memo_off := hmemo
  fine_of_grows hgrows hfine := List.suffix_nil.1 (hfine ▸ hgrows.gaps)
  missing e h hfine := alike_missing_unrepaired e hpass h hfine
  action_eq span synthetic hallows :=
    hallows.2 ⟨env.source.text, span, synthetic, env.pass.isRepair⟩ false
  hit _ hknown _ := by
    rw [known?_eq_none hmemo] at hknown
    cases hknown
  remember _ _ _ _ := trivial
  choice_once _ h _ hround := (hround _ h).choice_once rfl h.agrees
  choice_first _ h hfine _ hround :=
    have hopen : (unrepaired V).Ready env (openRound _) _ :=
      ⟨⟨h.valid.within, h.valid.vars⟩, (agrees_openRound _).symm.trans h.agrees, trivial, trivial⟩
    (mirrors_unrepaired (agrees_keepRound _ _) (hround _ hopen hfine)).choice_once rfl h.agrees
  choice_second _ h _ hundone _ _ hagain :=
    have hready : (unrepaired V).Ready env _ _ :=
      ⟨hundone.valid h.valid, hundone.symm.trans h.agrees, trivial, trivial⟩
    (mirrors_unrepaired (.refl _) (hagain _ hready)).choice_once rfl h.agrees

end Eval

end Peg
