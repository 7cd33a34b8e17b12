import Peg.Proofs.Action.Independence
import Peg.Proofs.Grammar.Reach
import Peg.Proofs.Parse.Derivation

/-!
# What only grows in a parse

Repairs are made and never taken back, as many as are allowed; the switch for repairs
is given back as it was found; and while it is off nothing is repaired and the note of
a refused repair stays.  This holds of every evaluation, also of one that is aborted.

Main results:

- `Derives.grows`: what every evaluation keeps of gaps, switch and note.
- `Derives.vars_eq`: without variables in the actions, all variables stay as they were.
-/

namespace Peg

open Text

variable {V : Type}

namespace Machine

/-- What every evaluation keeps of the gaps, the switch for repairs and the note of a
refused one. -/
structure Grows (env : Env V) (m left : Machine V) : Prop where
  mayInsert : left.mayInsert = m.mayInsert
  gaps : m.gaps <:+ left.gaps
  gaps_off : m.mayInsert = false → left.gaps = m.gaps
  noted_off : m.mayInsert = false → m.wouldInsert = true → left.wouldInsert = true
  allowed : left.gaps = m.gaps ∨ left.inserted ≤ env.settings.maxRecoveredErrors

variable {env : Env V} {m left : Machine V}

/-- Nothing has been repaired or refused yet. -/
theorem Grows.refl (m : Machine V) : Grows env m m :=
  ⟨rfl, List.suffix_refl _, fun _ => rfl, fun _ hnoted => hnoted, .inl rfl⟩

/-- What grows in two stretches grows in both together. -/
theorem Grows.trans {a b c : Machine V} (hab : Grows env a b) (hbc : Grows env b c) :
    Grows env a c where
  mayInsert := hbc.mayInsert.trans hab.mayInsert
  gaps := hab.gaps.trans hbc.gaps
  gaps_off hoff := (hbc.gaps_off (hab.mayInsert.trans hoff)).trans (hab.gaps_off hoff)
  noted_off hoff hnoted := hbc.noted_off (hab.mayInsert.trans hoff) (hab.noted_off hoff hnoted)
  allowed := by
    rcases hbc.allowed with hsame | hallowed
    · rcases hab.allowed with hfirst | hallowed
      · exact .inl (hsame.trans hfirst)
      · exact .inr (by rwa [inserted, hsame])
    · exact .inr hallowed

/-- The part of a machine that this is about. -/
def repairs (m : Machine V) : Bool × Bool × List Gap :=
  (m.mayInsert, m.wouldInsert, m.gaps)

/-- Nothing else matters for it. -/
theorem Grows.congr {n l : Machine V} (h : Grows env m left) (hstart : n.repairs = m.repairs)
    (hend : l.repairs = left.repairs) : Grows env n l := by
  simp only [repairs, Prod.mk.injEq] at hstart hend
  rcases hstart with ⟨hmay, hnoted, hgaps⟩
  rcases hend with ⟨hmay', hnoted', hgaps'⟩
  refine ⟨?_, ?_, ?_, ?_, ?_⟩
  · rw [hmay, hmay', h.mayInsert]
  · rw [hgaps, hgaps']
    exact h.gaps
  · rw [hmay, hgaps, hgaps']
    exact h.gaps_off
  · rw [hmay, hnoted, hnoted']
    exact h.noted_off
  · rw [inserted, hgaps, hgaps']
    exact h.allowed

/-- A round of a choice in which repairs are switched off. -/
theorem Grows.closeRound (htwo : Eval.takesTwoRounds env m = true)
    (h : Grows env (Eval.openRound m) left) (stack : Stack V) :
    Grows env m { Eval.closeRound m left with stack := stack } := by
  have hon : m.mayInsert = true := mayInsert_of_takesTwoRounds htwo
  have hsame : left.gaps = m.gaps := h.gaps_off rfl
  exact ⟨hon.symm, hsame ▸ List.suffix_refl _, fun _ => hsame,
    fun hoff => absurd (hon.symm.trans hoff) nofun, .inl hsame⟩

/-- A rule grows as its body does. -/
theorem Grows.leaveRule {id : RuleId} {definition : Rule V}
    (h : Grows env (Eval.enterRule id definition m) left) :
    Grows env m (Eval.leaveRule definition m left) where
  mayInsert := h.mayInsert
  gaps := h.gaps
  gaps_off := h.gaps_off
  noted_off _ hnoted := by simp [Eval.leaveRule, hnoted]
  allowed := h.allowed

/-- What is noted inside of a rule stays noted behind it. -/
theorem grows_leaveRule (definition : Rule V) (m left : Machine V) :
    Grows env left (Eval.leaveRule definition m left) where
  mayInsert := rfl
  gaps := List.suffix_refl _
  gaps_off _ := rfl
  noted_off _ hnoted := by simp [Eval.leaveRule, hnoted]
  allowed := .inl rfl

end Machine

open Machine

variable {env : Env V} {a : Nat} {task : Task V} {m : Machine V} {o : Verdict × Machine V}
variable {made : List StandIn}

namespace Eval

/-- Going back after a mismatch does not take repairs back. -/
theorem grows_rewinding {eval : Eval V} (h : Grows env m (eval m).2) :
    Grows env m (rewinding eval m).2 := by
  rcases exists_snd_rewinding eval m with ⟨_, _, hleft⟩
  rw [hleft]
  exact h.congr rfl rfl

/-- A terminal is stood in for at most once, and only as long as repairs are allowed. -/
theorem grows_terminal (e : Expr V) (m : Machine V) : Grows env m (terminal env e m).2 := by
  unfold terminal
  split
  next => exact (Grows.refl m).congr rfl rfl
  next =>
      unfold missing
      split
      next =>
          dsimp only
          rw [recordFailure_eq]
          exact (Grows.refl m).congr rfl rfl
      next errorOffset hpass =>
          by_cases hstand : mayStandIn env errorOffset e m = true
          · have hless : m.inserted < env.settings.maxRecoveredErrors := by
              simp only [mayStandIn, Bool.and_eq_true, decide_eq_true_eq] at hstand
              exact hstand.2
            by_cases hon : m.mayInsert = true
            · rw [if_pos hstand, if_pos hon]
              refine ⟨rfl, List.suffix_cons _ _, fun hoff => ?_, fun _ hnoted => hnoted, .inr ?_⟩
              · exact absurd (hon.symm.trans hoff) nofun
              · rw [inserted_insert]
                exact hless
            · rw [if_pos hstand, if_neg hon]
              exact ⟨rfl, List.suffix_refl _, fun _ => rfl, fun _ _ => rfl, .inl rfl⟩
          · rw [if_neg hstand]
            exact .refl m

/-- An action makes no repairs. -/
theorem grows_runAction (env : Env V) (action : Action V) (span : Span) (synthetic : Bool)
    (m : Machine V) : Grows env m (runAction env action span synthetic m).2 := by
  rcases exists_snd_runAction env action span synthetic m with ⟨_, _, _, hleft⟩
  rw [hleft]
  exact (Grows.refl m).congr rfl rfl

end Eval

/-- What every evaluation keeps of the gaps, the switch and the note. -/
theorem Derives.grows (h : Derives env a task m o made) : Grows env m o.2 := by
  induction h with
  | terminal hterminal => exact Eval.grows_rewinding (Eval.grows_terminal _ _)
  | action => exact Eval.grows_rewinding (Eval.grows_runAction _ _ _ _ _)
  | seq hitems ih => exact Eval.grows_rewinding (ih.congr rfl rfl)
  | done | no_alternative | unknown | limit => exact .refl _
  | @act_next a start inherited action items previous synthetic m left o made hact hrest ih =>
      have hfirst := Eval.grows_runAction env action previous synthetic m
      rw [hact] at hfirst
      exact hfirst.trans ih
  | act_last hends => exact Eval.grows_runAction _ _ _ _ _
  | @part_next a start inherited item items previous synthetic m left o made later hitem hpart
      hrest ihpart ihrest =>
      have hfirst : Grows env m left := ihpart.congr rfl rfl
      exact hfirst.trans ihrest
  | part_last hitem hpart hends ih => exact ih.congr rfl rfl
  | choice_once honce hround ih => exact Eval.grows_rewinding ih
  | choice_first htwo hround hends ih => exact Eval.grows_rewinding (ih.closeRound htwo _)
  | choice_second htwo hround hnoted hagain ihround ihagain =>
      exact Eval.grows_rewinding ((ihround.closeRound htwo _).trans ihagain)
  | @alternative_next a item items m left o made later hmore hfirst hrest ihfirst ihrest =>
      have hback : Grows env m left.backtrack := ihfirst.congr rfl rfl
      exact hback.trans ihrest
  | alternative_last hends hfirst ih => exact ih
  | star hmany ih => exact Eval.grows_rewinding (ih.congr rfl rfl)
  | @many_next a body m left o made later hfirst hless hrest ihfirst ihrest =>
      have hround : Grows env m left := ihfirst.congr rfl rfl
      exact hround.trans ihrest
  | many_last hfirst hends ih =>
      rw [Eval.snd_accepted]
      exact ih.congr rfl rfl
  | plus_next hfirst hless hrest ihfirst ihrest =>
      exact Eval.grows_rewinding ((ihfirst.trans ihrest).congr rfl rfl)
  | plus_last hfirst hends ih => exact Eval.grows_rewinding (ih.congr rfl rfl)
  | optional hbody ih =>
      refine Eval.grows_rewinding ?_
      rw [Eval.optional_eq, Eval.snd_keepingCommitment, Eval.snd_accepted]
      exact ih.congr rfl rfl
  | notAhead hbody ih | ahead hbody ih => exact Eval.grows_rewinding (ih.congr rfl rfl)
  | @label a name body m o made hbody ih =>
      refine Eval.grows_rewinding ?_
      rcases Eval.exists_snd_labeled env name (fun _ => o) m with ⟨_, _, hleft⟩
      rw [hleft]
      exact ih.congr rfl rfl
  | rule hcall ih => exact Eval.grows_rewinding ih
  | @hit a id definition refused m hdefinition hknown =>
      rcases Eval.exists_knownMismatch env id refused m with ⟨_, _, _, hleft⟩
      rw [hleft]
      exact ⟨rfl, List.suffix_refl _, fun _ => rfl, fun _ hnoted => by simp [hnoted], .inl rfl⟩
  | @body a id definition m o made hdefinition hknown hbody ih =>
      rcases Eval.exists_snd_body env id definition (Eval.memoKey? env id definition m)
        (fun _ => o) (Eval.countMiss env definition m) with ⟨_, _, _, _, hleft⟩
      have hcount : (Eval.countMiss env definition m).repairs = m.repairs := by
        rw [Eval.countMiss_eq]
        rfl
      rw [hleft]
      exact ih.leaveRule.congr hcount.symm rfl

/-! ## Variables -/

namespace Eval

theorem vars_rewinding (eval : Eval V) (m : Machine V) :
    (rewinding eval m).2.vars = (eval m).2.vars := by
  rcases exists_snd_rewinding eval m with ⟨_, _, hleft⟩
  rw [hleft]

theorem vars_terminal (e : Expr V) (m : Machine V) : (terminal env e m).2.vars = m.vars := by
  rcases exists_snd_terminal env e m with ⟨_, _, _, _, _, _, hleft⟩
  rw [hleft]

/-- An action without variables leaves them as they are. -/
theorem vars_runAction {action : Action V} (h : action.VariableFree) (span : Span)
    (synthetic : Bool) (m : Machine V) :
    (runAction env action span synthetic m).2.vars = m.vars := by
  have hvars := Workspace.vars_run (h ⟨env.source.text, span, synthetic, env.pass.isRepair⟩)
    ⟨m.stack, m.vars⟩
  unfold runAction
  dsimp only
  generalize (action _).run ⟨m.stack, m.vars⟩ = result at hvars ⊢
  rcases result with ⟨error | _ | _, space⟩
  · exact hvars
  · exact hvars
  · exact hvars

end Eval

/-- Without variables in the actions all variables stay as they were. -/
theorem Derives.vars_eq (hgrammar : env.grammar.Admits Action.VariableFree)
    (h : Derives env a task m o made) (htask : task.Admits Action.VariableFree) :
    o.2.vars = m.vars := by
  induction h with
  | terminal hterminal => exact (Eval.vars_rewinding _ _).trans (Eval.vars_terminal _ _)
  | action =>
      exact (Eval.vars_rewinding _ _).trans (Eval.vars_runAction (Expr.Admits.allows htask) _ _ _)
  | seq hitems ih =>
      exact (Eval.vars_rewinding _ _).trans (ih fun _ hpart => Expr.Admits.part htask hpart)
  | done | no_alternative | unknown | limit => rfl
  | @act_next a start inherited action items previous synthetic m left o made hact hrest ih =>
      have hfirst : (Eval.runAction env action previous synthetic m).2.vars = m.vars :=
        Eval.vars_runAction (htask _ List.mem_cons_self).allows previous synthetic m
      rw [hact] at hfirst
      exact (ih (List.forall_mem_cons.1 htask).2).trans hfirst
  | act_last hends => exact Eval.vars_runAction (htask _ List.mem_cons_self).allows _ _ _
  | part_next hitem hpart hrest ihpart ihrest =>
      exact (ihrest (List.forall_mem_cons.1 htask).2).trans (ihpart (htask _ List.mem_cons_self))
  | part_last hitem hpart hends ih => exact ih (htask _ List.mem_cons_self)
  | choice_once honce hround ih | choice_first htwo hround hends ih =>
      exact (Eval.vars_rewinding _ _).trans (ih fun _ hpart => Expr.Admits.part htask hpart)
  | @choice_second a items m left o made later htwo hround hnoted hagain ihround ihagain =>
      have hparts : Task.Admits Action.VariableFree (.alternatives items) :=
        fun _ hpart => Expr.Admits.part htask hpart
      exact (Eval.vars_rewinding _ _).trans ((ihagain hparts).trans (ihround hparts))
  | alternative_next hmore hfirst hrest ihfirst ihrest =>
      exact (ihrest (List.forall_mem_cons.1 htask).2).trans (ihfirst (htask _ List.mem_cons_self))
  | alternative_last hends hfirst ih => exact ih (htask _ List.mem_cons_self)
  | star hmany ih =>
      exact (Eval.vars_rewinding _ _).trans (ih (Expr.Admits.part htask List.mem_cons_self))
  | many_next hfirst hless hrest ihfirst ihrest => exact (ihrest htask).trans (ihfirst htask)
  | many_last hfirst hends ih =>
      rw [Eval.snd_accepted]
      exact ih htask
  | plus_next hfirst hless hrest ihfirst ihrest =>
      have hbody := Expr.Admits.part htask List.mem_cons_self
      exact (Eval.vars_rewinding _ _).trans ((ihrest hbody).trans (ihfirst hbody))
  | plus_last hfirst hends ih =>
      exact (Eval.vars_rewinding _ _).trans (ih (Expr.Admits.part htask List.mem_cons_self))
  | optional hbody ih =>
      rw [Eval.vars_rewinding, Eval.optional_eq, Eval.snd_keepingCommitment, Eval.snd_accepted]
      exact ih (Expr.Admits.part htask List.mem_cons_self)
  | notAhead hbody ih | ahead hbody ih =>
      exact (Eval.vars_rewinding _ _).trans (ih (Expr.Admits.part htask List.mem_cons_self))
  | @label a name body m o made hbody ih =>
      rcases Eval.exists_snd_labeled env name (fun _ => o) m with ⟨_, _, hleft⟩
      rw [Eval.vars_rewinding, hleft]
      exact ih (Expr.Admits.part htask List.mem_cons_self)
  | rule hcall ih => exact (Eval.vars_rewinding _ _).trans (ih trivial)
  | @hit a id definition refused m hdefinition hknown =>
      rcases Eval.exists_knownMismatch env id refused m with ⟨_, _, _, hleft⟩
      rw [hleft]
  | @body a id definition m o made hdefinition hknown hbody ih =>
      rcases Eval.exists_snd_body env id definition (Eval.memoKey? env id definition m)
        (fun _ => o) (Eval.countMiss env definition m) with ⟨_, _, _, _, hleft⟩
      have hinside : o.2.vars = m.vars.enter := by
        rw [Eval.countMiss_eq] at ih
        exact ih (hgrammar id definition hdefinition)
      rw [hleft]
      simp only [Eval.leaveRule, hinside, Locals.leave_enter]

end Peg
