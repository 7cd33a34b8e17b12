import Peg.Proofs.Memo.Transparency
import Peg.Proofs.Parse.Mirror

/-!
# What a parse with a memo settles without one

Whatever a parse with a memo comes to, a parse without one comes to as well, given that
enough nested invocations are allowed: a known mismatch takes none, but shows that the
rule refuses the place.  So two parses that remember different mismatches, but only true
ones, come to the same.

Main results:

- `Eval.reflects_memo`: a parse without a memo mirrors a parse with one.
- `Derives.settles_memo`: what was derived with a memo is settled without one.
- `mirrors_runPass_memo`: so is what a whole pass comes to.
-/

namespace Peg

open Text

variable {V : Type}

namespace Eval

open Machine

/-- What is remembered is true: the rules refuse their places. -/
def Remembers (env : Env V) (memo : Memo) : Prop :=
  ∀ key refused, memo.find? key = some refused →
    ∃ added, Refuses (env.memoizing false) key refused added

/-- Nothing is remembered at the start. -/
theorem remembers_empty (env : Env V) : Remembers env .empty := by
  intro key refused hfound
  rw [Memo.find?_empty] at hfound
  cases hfound

/-- A mismatch may be remembered if the rule refuses the place. -/
theorem Remembers.insert {env : Env V} {memo : Memo} (h : Remembers env memo) {key : MemoKey}
    {refused : Bool} {added : Frontier V}
    (hrefuses : Refuses (env.memoizing false) key refused added) (limit : Nat) :
    Remembers env (memo.insert limit key refused) := by
  intro other found hfound
  by_cases hkey : other = key
  · subst hkey
    rw [Memo.find?_insert_self, Option.some_inj] at hfound
    exact ⟨added, hfound ▸ hrefuses⟩
  · exact h other found (Memo.eq_of_find?_insert hkey hfound)

/-- A parse with a memo is mirrored by one without, repairs included. -/
def memoManner (env : Env V) : Manner V where
  fine _ := True
  switched mayInsert mayInsert' := mayInsert' = mayInsert
  noted := True
  sound := Remembers env

variable {env : Env V} {m n left inside inside' : Machine V} {id : RuleId} {definition : Rule V}

/-- A rule is looked up in the memo only if remembering is on, in general and for the rule. -/
theorem memoKey?_eq_some {key : MemoKey} (h : memoKey? env id definition m = some key) :
    env.settings.memoization = true ∧ definition.options.memoMismatches = true ∧
      key = ⟨id, m.offset, m.memoContext env⟩ := by
  unfold memoKey? at h
  split at h
  next hasks =>
      rw [Bool.and_eq_true] at hasks
      exact ⟨hasks.1, hasks.2, (Option.some_inj.1 h).symm⟩
  next => cases h

theorem valid_memo (h : (memoManner env).Ready env m n) : n.Valid (env.memoizing false) :=
  ⟨(h.agrees.valid h.valid).within, (h.agrees.valid h.valid).vars⟩

theorem memoContext_memo (h : (memoManner env).Ready env m n) :
    n.memoContext (env.memoizing false) = m.memoContext env := by
  have hswitch : n.mayInsert = m.mayInsert := h.switched
  unfold memoContext
  rw [hswitch, h.agrees.committed_eq, h.agrees.probes_eq, h.agrees.inserted_eq]
  rfl

/-- A failed terminal is stood in for with a memo exactly if it is without. -/
theorem alike_missing_memo (e : Expr V) (h : (memoManner env).Ready env m n) :
    (memoManner env).Alike m n (missing env e m) (missing (env.memoizing false) e n) := by
  have halong := h.along
  rw [missing_memoizing]
  unfold missing
  split
  next => exact .mismatched (halong.recordFailure _ _ _ _ _ _)
  next errorOffset hpass =>
      have hswitch : n.mayInsert = m.mayInsert := h.switched
      have hstand : mayStandIn env errorOffset e n = mayStandIn env errorOffset e m := by
        simp only [mayStandIn, h.agrees.probes_eq, h.agrees.offset_eq, h.agrees.committed_eq,
          h.agrees.inserted_eq]
      rw [hstand, hswitch]
      split
      next =>
          split
          next =>
              refine .matched ⟨?_, halong.notes, h.sound⟩
              rcases h.agrees with ⟨_, _, _, _, _, _, _, rfl⟩
              exact ⟨_, _, _, _, _, _, _, rfl⟩
          next =>
              refine .mismatched
                ⟨?_, fun _ => ⟨true, (Bool.or_true _).symm, (Bool.or_true _).symm⟩, h.sound⟩
              rcases h.agrees with ⟨_, _, _, _, _, _, _, rfl⟩
              exact ⟨_, _, _, _, _, _, _, rfl⟩
      next => exact .mismatched halong

/-- A known mismatch is mirrored by matching the rule. -/
theorem mirrors_hit (hfree : env.settings.memoization = true → env.grammar.MemoActionFree)
    {refused : Bool} (hdefinition : env.grammar.rule? id = some definition)
    (hknown : known? env id definition m = some refused) (h : (memoManner env).Ready env m n) :
    (memoManner env).Mirrors (env.memoizing false) (.call id) m n
      (.mismatched, knownMismatch env id refused m) := by
  rcases Option.bind_eq_some_iff.1 hknown with ⟨key, hkey, hfound⟩
  rcases memoKey?_eq_some hkey with ⟨hon, hasks, rfl⟩
  rcases h.sound _ _ hfound with ⟨added, hrefuses⟩
  rcases hrefuses.exists_invoke_eq rfl (hfree hon id definition hdefinition hasks) (valid_memo h)
    h.agrees.offset_eq (memoContext_memo h) with ⟨allowance, left, hinvoke, hframe, hquiet, hgaps⟩
  rcases exists_derives (env.memoizing false) allowance (.call id) n with ⟨made, hmade⟩
  rw [Task.run, hinvoke] at hmade
  refine ⟨_, hmade.settles rfl,
    .mismatched ⟨?_, fun _ => ⟨refused, ?_, hquiet.wouldInsert_eq⟩, ?_⟩⟩
  · rw [eq_of_refused hframe hquiet hgaps (invoke_mismatched hinvoke), knownMismatch_eq]
    rcases h.agrees with ⟨_, _, _, _, _, _, _, rfl⟩
    exact ⟨_, _, _, _, _, _, _, rfl⟩
  · rw [knownMismatch_eq]
  · rw [knownMismatch_eq]
    exact h.sound

/-- A mismatch that is remembered is true. -/
theorem remembers_remember (hfree : env.settings.memoization = true → env.grammar.MemoActionFree)
    (hdefinition : env.grammar.rule? id = some definition) (h : (memoManner env).Ready env m n)
    (hsettles : Settles (env.memoizing false) (.expr definition.body) (enterRule id definition n)
      (.mismatched, inside'))
    (halong : (memoManner env).Along (enterRule id definition m) (enterRule id definition n)
      inside inside') :
    Remembers env (remember env (memoKey? env id definition m) inside.wouldInsert m
      { leaveRule definition m inside with nodes := m.nodes }).memo := by
  unfold remember
  split
  next => exact halong.sound
  next key hkey =>
      rcases memoKey?_eq_some hkey with ⟨hon, hasks, rfl⟩
      split
      next hinserted =>
          have hinserted' : inside'.inserted = n.inserted := by
            rw [halong.agrees.inserted_eq, h.agrees.inserted_eq]
            exact hinserted
          have hnoted : inside'.wouldInsert = inside.wouldInsert := by
            rcases halong.notes trivial with ⟨refused, hnote, hnote'⟩
            rw [hnote, hnote']
            rfl
          rcases hsettles.exists_derives with ⟨_, _, hmade⟩
          have hoff : (env.memoizing false).settings.memoization = false := rfl
          have hsame : (env.memoizing false).grammar.rule? id = some definition := hdefinition
          rcases refuses_of_mismatched hoff hsame (hfree hon id definition hdefinition hasks)
            (valid_memo h) hmade.run_eq hinserted' with ⟨added, hrefuses, -⟩
          rw [h.agrees.offset_eq, memoContext_memo h, hnoted] at hrefuses
          exact halong.sound.insert hrefuses _
      next => exact halong.sound

/-! ## Rounds -/

section Rounds

variable {items : List (Expr V)} {o : Verdict × Machine V}

/-- A choice takes as many rounds with a memo as without. -/
theorem takesTwoRounds_memo (h : (memoManner env).Ready env m n) :
    takesTwoRounds (env.memoizing false) n = takesTwoRounds env m := by
  have hswitch : n.mayInsert = m.mayInsert := h.switched
  simp only [takesTwoRounds, h.agrees.probes_eq, hswitch]
  rfl

/-- The comparison goes on inside of a round. -/
theorem ready_openRound_memo (h : (memoManner env).Ready env m n) :
    (memoManner env).Ready env (openRound m) (openRound n) where
  valid := ⟨h.valid.within, h.valid.vars⟩
  agrees := (agrees_openRound m).symm.trans (h.agrees.trans (agrees_openRound n))
  switched := rfl
  sound := h.sound

/-- A first round that is kept is mirrored by a first round that is kept. -/
theorem mirrors_choice_first_memo (htwo : takesTwoRounds env m = true)
    (h : (memoManner env).Ready env m n) (hends : ¬ (o.1 = .mismatched ∧ o.2.wouldInsert = true))
    (hround : (memoManner env).Mirrors (env.memoizing false) (.alternatives items) (openRound m)
      (openRound n) o) :
    (memoManner env).Mirrors (env.memoizing false) (.expr (.choice items)) m n
      (rewinding (fun _ => (o.1, keepRound m o.2)) m) := by
  rcases hround with ⟨o', hsettles, halike⟩
  have hends' : ¬ (o'.1 = .mismatched ∧ o'.2.wouldInsert = true) := by
    cases halike with
    | matched halong => nofun
    | aborted hgaps => nofun
    | mismatched halong =>
        rintro ⟨-, hnoted⟩
        rcases halong.notes trivial with ⟨refused, hl, hl'⟩
        exact hends ⟨rfl, hl.trans (hl'.symm.trans hnoted)⟩
  exact ⟨_, hsettles.of fun hmade =>
    ⟨_, .choice_first ((takesTwoRounds_memo h).trans htwo) hmade hends'⟩,
    halike.keepRound.rewinding h.agrees⟩

/-- A second round is mirrored by a second round, behind a first one that is taken back in both
parses. -/
theorem mirrors_choice_second_memo (htwo : takesTwoRounds env m = true)
    (h : (memoManner env).Ready env m n) (hundone : m.Agrees (undoRound m left))
    (hnoted : left.wouldInsert = true)
    (hround : (memoManner env).Mirrors (env.memoizing false) (.alternatives items) (openRound m)
      (openRound n) (.mismatched, left))
    (hagain : ∀ n', (memoManner env).Ready env (undoRound m left) n' →
      (memoManner env).Mirrors (env.memoizing false) (.alternatives items) (undoRound m left) n'
        o) :
    (memoManner env).Mirrors (env.memoizing false) (.expr (.choice items)) m n
      (rewinding (fun _ => o) m) := by
  rcases hround.exists_mismatched with ⟨left', hsettles, halong⟩
  have htwo' : takesTwoRounds (env.memoizing false) n = true := (takesTwoRounds_memo h).trans htwo
  have hnoted' : left'.wouldInsert = true := by
    rcases halong.notes trivial with ⟨refused, hl, hl'⟩
    exact hl'.trans (hl.symm.trans hnoted)
  have hundone' : n.Agrees (undoRound n left') := by
    rcases hsettles.exists_derives with ⟨_, _, hmade⟩
    refine agrees_undoRound (valid_memo h) htwo' hmade ?_
    calc
      left'.vars = (undoRound m left).vars := halong.agrees.vars_eq
      _ = m.vars := hundone.vars_eq
      _ = n.vars := h.agrees.vars_eq.symm
  have hready : (memoManner env).Ready env (undoRound m left) (undoRound n left') :=
    ⟨hundone.valid h.valid, hundone.symm.trans (h.agrees.trans hundone'), rfl, halong.sound⟩
  rcases hagain _ hready with ⟨o', hsettles', halike⟩
  refine ⟨_, hsettles.of₂ hsettles' fun hmade hmade' =>
    ⟨_, .choice_second htwo' hmade hnoted' hmade'⟩, (halike.after ?_).rewinding h.agrees⟩
  exact ⟨hready.agrees, fun _ => ⟨false, (Bool.or_false _).symm, (Bool.or_false _).symm⟩,
    hready.sound⟩

end Rounds

/-- A parse with a memo is mirrored by one without. -/
theorem reflects_memo (hfree : env.settings.memoization = true → env.grammar.MemoActionFree) :
    Reflects env (env.memoizing false) Action.VariableFree (memoManner env) where
  grammar_eq := rfl
  source_eq := rfl
  memo_off := rfl
  fine_of_grows _ h := h
  missing e h _ := alike_missing_memo e h
  action_eq _ _ _ := rfl
  hit hdefinition hknown h := mirrors_hit hfree hdefinition hknown h
  remember hdefinition h hsettles halong := remembers_remember hfree hdefinition h hsettles halong
  choice_once honce h _ hround :=
    (hround _ h).choice_once ((takesTwoRounds_memo h).trans honce) h.agrees
  choice_first htwo h _ hends hround :=
    mirrors_choice_first_memo htwo h hends (hround _ (ready_openRound_memo h) trivial)
  choice_second htwo h _ hundone hnoted hround hagain :=
    mirrors_choice_second_memo htwo h hundone hnoted (hround _ (ready_openRound_memo h) trivial)
      hagain

end Eval

variable {env : Env V} {a : Nat} {task : Task V} {m n : Machine V} {o : Verdict × Machine V}
variable {made : List StandIn}

/-- What was derived with a memo that is true is settled without one. -/
theorem Derives.settles_memo (hmemo : env.settings.memoization = true → env.grammar.MemoActionFree)
    (hgrammar : env.grammar.Admits Action.VariableFree) (h : Derives env a task m o made)
    (htask : task.Admits Action.VariableFree) (hlimited : o.1.limited = false)
    (hready : (Eval.memoManner env).Ready env m n) :
    (Eval.memoManner env).Mirrors (env.memoizing false) task m n o :=
  (Eval.reflects_memo hmemo).mirrors (fun _ hfree => hfree) hgrammar h htask hlimited trivial hready

/-- A pass starts with nothing remembered. -/
theorem ready_passStart (env : Env V) :
    (Eval.memoManner env).Ready env (passStart env) (Machine.start env) := by
  refine ⟨valid_passStart env, ?_, ?_, ?_⟩
  · rw [passStart_eq]
    exact ⟨_, _, _, _, _, _, _, rfl⟩
  · rw [passStart_eq]
    rfl
  · rw [passStart_eq]
    exact Eval.remembers_empty env

/-- A whole pass is settled without a memo. -/
theorem mirrors_runPass_memo (hmemo : env.settings.memoization = true → env.grammar.MemoActionFree)
    (hgrammar : env.grammar.Admits Action.VariableFree) {root : RuleId}
    (hlimited : (runPass env root).1.limited = false) :
    (Eval.memoManner env).Mirrors (env.memoizing false) (.call root) (passStart env)
      (Machine.start env) (runPass env root) := by
  rcases exists_passMakes env root with ⟨made, hmade⟩
  exact hmade.settles_memo hmemo hgrammar trivial hlimited (ready_passStart env)

end Peg
