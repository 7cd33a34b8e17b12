import Peg.Proofs.Expr.Terminal
import Peg.Proofs.Parse.Frame

/-!
# Every evaluation keeps the frame

Whatever an expression does, with whatever actions, unless it is aborted it keeps
the frame of the machine it started from.

Main results:

- `Eval.framed_expr`: an expression keeps the frame if the rules it calls do.
- `Eval.framed_invoke`: every rule invocation keeps the frame.
- `Eval.expr_mismatched` and `Eval.invoke_mismatched`: after a mismatch the reading
  head and the nodes are back where they were.
-/

namespace Peg

open Text

variable {V : Type}

namespace Eval

/-- A property of the machine an evaluation leaves, unless it was aborted. -/
def Leaves (P : Machine V → Prop) : Verdict × Machine V → Prop
  | (.aborted _, _) => True
  | (_, left) => P left

/-- An evaluation that keeps the frame of every machine it may start from. -/
def Framed (env : Env V) (eval : Eval V) : Prop :=
  ∀ m : Machine V, m.Valid env → Leaves (m.Frame env) (eval m)

/-- What is left has every property that follows from one it has. -/
theorem Leaves.imp {P Q : Machine V → Prop} (himp : ∀ left, P left → Q left)
    {outcome : Verdict × Machine V} (h : Leaves P outcome) : Leaves Q outcome := by
  rcases outcome with ⟨_ | _ | _, left⟩
  · exact himp left h
  · exact himp left h
  · trivial

variable {env : Env V} {eval : Eval V} {m : Machine V}

/-! ## Combinators that keep the place -/

/-- After a mismatch the head and the nodes go back to where the frame began. -/
theorem Framed.rewinding (h : Framed env eval) : Framed env (rewinding eval) := by
  intro m hm
  have hframe := h m hm
  unfold Eval.rewinding
  generalize eval m = outcome at hframe ⊢
  rcases outcome with ⟨_ | _ | _, left⟩
  · exact hframe
  · exact Machine.Frame.rewind hm hframe
  · trivial

/-- It is enough to keep the frame up to the commitment. -/
theorem framed_keepingCommitment
    (h : ∀ m : Machine V, m.Valid env →
      Leaves (fun left => m.Frame env { left with committed := m.committed }) (eval m)) :
    Framed env (keepingCommitment eval) := by
  intro m hm
  have hframe := h m hm
  unfold keepingCommitment
  generalize eval m = outcome at hframe ⊢
  rcases outcome with ⟨_ | _ | _, left⟩
  · exact hframe
  · exact hframe
  · trivial

/-- Evaluating under a commitment of one's own keeps the frame up to the
commitment. -/
theorem Framed.committing (h : Framed env eval) (hm : m.Valid env) (committed : Bool) :
    Leaves (fun left => m.Frame env { left with committed := m.committed })
      (eval { m with committed := committed }) :=
  (h { m with committed := committed } ⟨hm.within, hm.vars⟩).imp fun _ hframe =>
    hframe.keepCommitment

/-- Going on after a stretch that kept the frame up to the commitment. -/
theorem Leaves.after {left : Machine V} {outcome : Verdict × Machine V}
    (hleft : m.Frame env { left with committed := m.committed })
    (h : Leaves (fun last => left.Frame env { last with committed := left.committed }) outcome) :
    Leaves (fun last => m.Frame env { last with committed := m.committed }) outcome :=
  h.imp fun _ hlast => hleft.trans (hlast.recommit m.committed)

/-! ## Terminals and actions -/

/-- A failed terminal notes its failure or is stood in for, which adds a gap in front of the
others. -/
theorem framed_missing (e : Expr V) : Framed env (missing env e) := by
  intro m hm
  unfold missing
  split
  next => exact (Machine.Frame.refl hm).recordFailure _ _
  next errorOffset hpass =>
      split
      next =>
          split
          next =>
              exact { Machine.Frame.refl hm with
                valid := ⟨hm.within, hm.vars⟩
                gaps := List.suffix_cons _ _
                gaps_first := fun hfirst => by simp [hfirst] at hpass }
          next => exact (Machine.Frame.refl hm).note true
      next => exact Machine.Frame.refl hm

/-- A terminal moves the head only forwards and within the text. -/
theorem framed_terminal (e : Expr V) : Framed env (terminal env e) := by
  intro m hm
  unfold terminal
  split
  next cursor hconsume =>
      rcases consume?_eq_some_iff.1 hconsume with ⟨consumed, -, hpast⟩
      exact { Machine.Frame.refl hm with
        valid := ⟨hpast.within hm.within, hm.vars⟩
        offset_le := hpast.offset_le }
  next => exact framed_missing e m hm

/-- An action works on the values, entered in the journals, and on the variables of its own rule.
-/
theorem framed_runAction (action : Action V) (span : Span) (synthetic : Bool) :
    Framed env (runAction env action span synthetic) := by
  intro m hm
  let view : MatchView := ⟨env.source.text, span, synthetic, env.pass.isRepair⟩
  have htracks := Stack.tracks_run (action view) ⟨m.stack, m.vars⟩
  have hvars := Workspace.callers_run (action view) ⟨m.stack, m.vars⟩ hm.vars
  simp only [runAction]
  generalize (action view).run ⟨m.stack, m.vars⟩ = result at htracks hvars ⊢
  rcases result with ⟨answer, space⟩
  have hframe : m.Frame env { m with
      stack := space.stack
      vars := space.vars
      stats := { m.stats with actionsRun := m.stats.actionsRun + 1 } } :=
    { Machine.Frame.refl hm with
      valid := ⟨hm.within, hvars.1⟩
      tracks := htracks
      callers := hvars.2 }
  rcases answer with error | _ | _
  · trivial
  · exact hframe
  · exact hframe

/-! ## Sequences -/

/-- The items of a sequence that are expressions keep the frame. -/
def Element.Framed (env : Env V) : Element V → Prop
  | .act _ => True
  | .part eval => Eval.Framed env eval

/-- The items of a sequence keep the frame one after another, each under the commitment of those
in front of it. -/
theorem framed_runElements {items : List (Element V)} (hitems : ∀ item ∈ items, item.Framed env)
    (start : Nat) (inherited : Bool) (previous : Span) (synthetic : Bool) (hm : m.Valid env) :
    Leaves (fun left => m.Frame env { left with committed := m.committed })
      (runElements env start inherited items previous synthetic m) := by
  induction items generalizing m previous synthetic with
  | nil => exact Machine.Frame.refl hm
  | cons item items ih =>
      have hrest : ∀ item ∈ items, item.Framed env := fun item hitem =>
        hitems item (List.mem_cons_of_mem _ hitem)
      cases item with
      | act action =>
          have hframe := framed_runAction action previous synthetic m hm
          rw [runElements]
          generalize runAction env action previous synthetic m = outcome at hframe ⊢
          rcases outcome with ⟨_ | _ | _, left⟩
          · exact Leaves.after (Machine.Frame.upToCommitment hframe)
              (ih hrest previous synthetic (Machine.Frame.valid hframe))
          · exact Machine.Frame.upToCommitment hframe
          · trivial
      | part eval =>
          have hpart : Eval.Framed env eval := hitems _ List.mem_cons_self
          have hframe := hpart.committing hm (inherited || start < m.offset)
          rw [runElements]
          generalize eval { m with committed := inherited || start < m.offset } = outcome
            at hframe ⊢
          rcases outcome with ⟨_ | _ | _, left⟩
          · have hvalid := Machine.Frame.valid hframe
            exact Leaves.after hframe (ih hrest _ _ ⟨hvalid.within, hvalid.vars⟩)
          · exact hframe
          · trivial

/-- A sequence gives the commitment back that it was given. -/
theorem framed_sequence {items : List (Element V)} (hitems : ∀ item ∈ items, item.Framed env) :
    Framed env (sequence env items) :=
  framed_keepingCommitment fun m hm =>
    framed_runElements hitems m.offset m.committed (Span.emptyAt m.offset) false hm

/-! ## Choices -/

/-- Going on to the next alternative is only counted, and so keeps the frame. -/
theorem framed_alternatives {items : List (Eval V)} (hitems : ∀ item ∈ items, Framed env item) :
    Framed env (alternatives items) := by
  induction items with
  | nil => exact fun m hm => Machine.Frame.refl hm
  | cons item items ih =>
      intro m hm
      have hframe := hitems item List.mem_cons_self m hm
      rw [alternatives]
      generalize item m = outcome at hframe ⊢
      rcases outcome with ⟨_ | _ | _, left⟩
      · exact hframe
      · dsimp only
        split
        next => exact hframe
        next =>
            have hback : m.Frame env left.backtrack := Machine.Frame.observe hframe _ _
            have hrest := ih (fun item hitem => hitems item (List.mem_cons_of_mem _ hitem))
            exact (hrest left.backtrack hback.valid).imp fun _ hlast => hback.trans hlast
      · trivial

/-- A choice keeps the frame, whether its first round is kept or taken back. -/
theorem framed_choice {items : List (Eval V)} (hitems : ∀ item ∈ items, Framed env item) :
    Framed env (choice env items) := by
  intro m hm
  have hsecond := framed_alternatives hitems
  unfold choice
  split
  next hround =>
      have hframe := hsecond (openRound m) ⟨hm.within, hm.vars⟩
      generalize alternatives items (openRound m) = outcome at hframe ⊢
      rcases outcome with ⟨_ | _ | _, left⟩
      · exact Machine.Frame.keepRound hround hframe
      · dsimp only
        split
        next =>
            have hundo := Machine.Frame.undoRound hround hframe
            exact (hsecond (undoRound m left) hundo.valid).imp fun _ hlast => hundo.trans hlast
        next => exact Machine.Frame.keepRound hround hframe
      · trivial
  next => exact hsecond m hm

/-! ## Repetitions and options -/

/-- Iterations keep the frame one after another. -/
theorem framed_many (h : Framed env eval) (hm : m.Valid env) :
    Leaves (fun left => m.Frame env { left with committed := m.committed })
      (many env eval m) := by
  -- The induction follows the loop, whose measure is the number of bytes left.
  fun_induction many env eval m with
  | case1 m left heval hless ih =>
      have hframe := h.committing hm false
      rw [heval] at hframe
      have hvalid := Machine.Frame.valid hframe
      exact Leaves.after hframe (ih ⟨hvalid.within, hvalid.vars⟩)
  | case2 m left heval hless =>
      have hframe := h.committing hm false
      rwa [heval] at hframe
  | case3 m left heval =>
      have hframe := h.committing hm false
      rwa [heval] at hframe
  | case4 m error left heval => trivial

/-- A repetition keeps the frame as its iterations do. -/
theorem framed_star (h : Framed env eval) : Framed env (star env eval) :=
  framed_keepingCommitment fun _ hm => framed_many h hm

/-- A repetition with a first iteration that must match keeps the frame. -/
theorem framed_plus (h : Framed env eval) : Framed env (plus env eval) := by
  refine framed_keepingCommitment fun m hm => ?_
  have hframe := h m hm
  generalize eval m = outcome at hframe ⊢
  rcases outcome with ⟨_ | _ | _, left⟩
  · dsimp only
    split
    next =>
        exact Leaves.after (Machine.Frame.upToCommitment hframe)
          (framed_many h (Machine.Frame.valid hframe))
    next => exact Machine.Frame.upToCommitment hframe
  · exact Machine.Frame.upToCommitment hframe
  · trivial

/-- An option keeps the frame whether its body matches or not. -/
theorem framed_optional (h : Framed env eval) : Framed env (optional eval) := by
  refine framed_keepingCommitment fun m hm => ?_
  have hframe := h.committing hm false
  generalize eval { m with committed := false } = outcome at hframe ⊢
  rcases outcome with ⟨_ | _ | _, left⟩
  · exact hframe
  · exact hframe
  · trivial

/-! ## Lookahead, labels and rules -/

/-- A lookahead takes back what its body did to the values, the nodes and the head. -/
theorem framed_ahead (expectMatch : Bool) (h : Framed env eval) :
    Framed env (ahead expectMatch eval) := by
  intro m hm
  have hframe := h (openProbe m) ⟨hm.within, hm.vars⟩
  unfold ahead
  generalize eval (openProbe m) = outcome at hframe ⊢
  rcases outcome with ⟨_ | _ | _, left⟩
  · cases expectMatch <;> exact Machine.Frame.closeProbe hm hframe
  · cases expectMatch <;> exact Machine.Frame.closeProbe hm hframe
  · trivial

/-- A label opens a scope of its own and closes it again. -/
theorem framed_labeled (name : String) (h : Framed env eval) :
    Framed env (labeled env name eval) := by
  intro m hm
  have hframe := h { m with nodes := [], scopes := (.label name, m.offset) :: m.scopes }
    ⟨hm.within, hm.vars⟩
  unfold labeled
  generalize eval { m with nodes := [], scopes := (.label name, m.offset) :: m.scopes } = outcome
    at hframe ⊢
  rcases outcome with ⟨_ | _ | _, left⟩
  · exact Machine.Frame.closeScope hframe (Machine.suffix_addNode _ m name none)
  · exact (Machine.Frame.closeScope hframe (List.suffix_refl m.nodes)).recordNamed _ _ _
  · trivial

/-- A rule puts its nodes in front of those that were there. -/
theorem suffix_contribute (id : RuleId) (rule : Rule V) (m left : Machine V) :
    m.nodes <:+ (contribute id rule m left).nodes := by
  unfold contribute
  split
  next => exact Machine.suffix_addNode left m rule.name (some id)
  next => exact List.suffix_append _ _

/-- What a rule contributes to the parse tree are nodes. -/
theorem contribute_eq (id : RuleId) (rule : Rule V) (m left : Machine V) :
    contribute id rule m left =
      { left with nodes := (contribute id rule m left).nodes } := by
  unfold contribute
  split <;> rfl

/-- A rule has a frame of variables of its own, which is gone when it is left. -/
theorem framed_body (id : RuleId) (rule : Rule V) {key? : Option MemoKey} (h : Framed env eval)
    (hm : m.Valid env) (hkey : ∀ key ∈ key?, key.offset = m.offset) :
    Leaves (m.Frame env) (body env id rule key? eval m) := by
  have hframe := h (enterRule id rule m) ⟨hm.within, m.vars.valid_enter⟩
  unfold body
  generalize eval (enterRule id rule m) = outcome at hframe ⊢
  rcases outcome with ⟨_ | _ | _, inside⟩
  · have hleave : m.Frame env (contribute id rule m (leaveRule rule m inside)) := by
      rw [contribute_eq]
      exact Machine.Frame.leaveRule hm hframe (suffix_contribute id rule m _)
    exact hleave.observe _ _
  · have hleave : m.Frame env { leaveRule rule m inside with nodes := m.nodes } :=
      Machine.Frame.leaveRule hm hframe (List.suffix_refl m.nodes)
    exact ((hleave.remember hkey inside.wouldInsert).recordNamed _ _ _).observe _ _
  · trivial

/-- A rule keeps the frame, whether its mismatch is known already or its body is matched. -/
theorem framed_rule (id : RuleId) (rule : Rule V) (h : Framed env eval) :
    Framed env (Eval.rule env id rule eval) := by
  intro m hm
  unfold Eval.rule
  split
  next =>
      dsimp only
      split
      next wouldInsert hfound =>
          have hhit : m.Frame env
              { m with
                wouldInsert := m.wouldInsert || wouldInsert
                stats := { m.stats with memoHits := m.stats.memoHits + 1 }
                events := .memoHit id m.offset :: m.events } :=
            { Machine.Frame.refl hm with valid := ⟨hm.within, hm.vars⟩ }
          exact hhit.recordNamed _ _ _
      next hfound =>
          have hmiss : m.Frame env
              { m with stats := { m.stats with memoMisses := m.stats.memoMisses + 1 } } :=
            (Machine.Frame.refl hm).observe _ _
          refine (framed_body id rule h hmiss.valid ?_).imp fun _ hlast => hmiss.trans hlast
          rintro key ⟨⟩
          rfl
  next => exact framed_body id rule h hm (by simp)

/-! ## Expressions -/

/-- An expression keeps the frame if the rules it calls do; the induction is on its parts. -/
theorem framed_expr {call : RuleId → Eval V} (hcall : ∀ id, Framed env (call id)) (e : Expr V) :
    Framed env (expr env call e) := by
  induction e using Expr.induction_children with
  | step e ih =>
      cases e with
      | seq items =>
          refine Framed.rewinding (framed_sequence ?_)
          rw [elements_eq_map]
          intro item hitem
          rcases List.mem_map.1 hitem with ⟨part, hpart, rfl⟩
          cases part with
          | action action => exact trivial
          | _ => exact ih _ hpart
      | choice items =>
          refine Framed.rewinding (framed_choice ?_)
          rw [evalAll_eq_map]
          intro item hitem
          rcases List.mem_map.1 hitem with ⟨part, hpart, rfl⟩
          exact ih part hpart
      | star body => exact (framed_star (ih body List.mem_cons_self)).rewinding
      | plus body => exact (framed_plus (ih body List.mem_cons_self)).rewinding
      | optional body => exact (framed_optional (ih body List.mem_cons_self)).rewinding
      | notAhead body => exact (framed_ahead false (ih body List.mem_cons_self)).rewinding
      | ahead body => exact (framed_ahead true (ih body List.mem_cons_self)).rewinding
      | rule id => exact (hcall id).rewinding
      | label name body => exact (framed_labeled name (ih body List.mem_cons_self)).rewinding
      | action action =>
          exact Framed.rewinding fun m hm =>
            framed_runAction action (Span.emptyAt m.offset) false m hm
      | _ => exact (framed_terminal _).rewinding

/-- The invocation of a rule that the grammar does not have ends the parse. -/
theorem invoke_unknown (env : Env V) {id : RuleId} (allowance : Nat)
    (h : env.grammar.rule? id = none) :
    invoke env allowance id = fun m => (.aborted (.unknownRoot id.index), m) := by
  funext m
  simp [invoke, h]

/-- An invocation that is not allowed ends the parse. -/
theorem invoke_zero {id : RuleId} {definition : Rule V}
    (h : env.grammar.rule? id = some definition) :
    invoke env 0 id m =
      (.aborted (.recursionLimit env.settings.maxDepth (env.source.position m.offset)), m) := by
  simp only [invoke, h]

/-- An invocation that is allowed leaves one fewer to those inside of it. -/
theorem invoke_succ (env : Env V) {id : RuleId} {definition : Rule V} (allowance : Nat)
    (h : env.grammar.rule? id = some definition) :
    invoke env (allowance + 1) id =
      Eval.rule env id definition (expr env (invoke env allowance) definition.body) := by
  funext m
  simp [invoke, h]

/-- Every invocation keeps the frame, by induction on how many may be nested. -/
theorem framed_invoke (allowance : Nat) (id : RuleId) :
    Framed env (invoke env allowance id) := by
  induction allowance generalizing id with
  | zero =>
      intro m hm
      unfold invoke
      split <;> trivial
  | succ allowance ih =>
      intro m hm
      unfold invoke
      split
      next => trivial
      next definition hdefinition =>
          exact framed_rule id definition (framed_expr ih definition.body) m hm

/-! ## Mismatches -/

/-- After a mismatch the head and the nodes are back where the expression began. -/
theorem expr_mismatched {call : RuleId → Eval V} {e : Expr V} {left : Machine V}
    (h : expr env call e m = (.mismatched, left)) :
    left.cursor = m.cursor ∧ left.nodes = m.nodes := by
  cases e <;> exact rewinding_mismatched h

/-- Where all alternatives fail, the head and the nodes are where they were. -/
theorem alternatives_mismatched {call : RuleId → Eval V} {items : List (Expr V)}
    {left : Machine V} (h : alternatives (evalAll env call items) m = (.mismatched, left)) :
    left.cursor = m.cursor ∧ left.nodes = m.nodes := by
  induction items generalizing m with
  | nil =>
      cases h
      exact ⟨rfl, rfl⟩
  | cons item items ih =>
      rw [evalAll, alternatives] at h
      generalize hfirst : expr env call item m = outcome at h
      rcases outcome with ⟨_ | _ | _, first⟩
      · cases h
      · have hback := expr_mismatched hfirst
        dsimp only at h
        split at h
        next =>
            cases h
            exact hback
        next =>
            have hrest := ih h
            exact ⟨hrest.1.trans hback.1, hrest.2.trans hback.2⟩
      · cases h

/-- After a mismatch of its body a rule has moved nothing. -/
theorem body_mismatched {id : RuleId} {rule : Rule V} {key? : Option MemoKey} {left : Machine V}
    (heval : ∀ inside, eval (enterRule id rule m) = (.mismatched, inside) →
      inside.cursor = m.cursor)
    (h : body env id rule key? eval m = (.mismatched, left)) :
    left.cursor = m.cursor ∧ left.nodes = m.nodes := by
  unfold body at h
  generalize eval (enterRule id rule m) = outcome at heval h
  rcases outcome with ⟨_ | _ | _, inside⟩
  · cases h
  · cases h
    have hcursor := heval inside rfl
    rw [Machine.recordNamed_eq, Machine.remember_eq]
    exact ⟨hcursor, rfl⟩
  · cases h

/-- After a mismatch, known or new, a rule has moved nothing. -/
theorem invoke_mismatched {allowance : Nat} {id : RuleId} {left : Machine V}
    (h : invoke env allowance id m = (.mismatched, left)) :
    left.cursor = m.cursor ∧ left.nodes = m.nodes := by
  unfold invoke at h
  split at h
  next => cases h
  next definition hdefinition =>
      cases allowance with
      | zero => cases h
      | succ allowance =>
          dsimp only at h
          unfold Eval.rule at h
          split at h
          next =>
              dsimp only at h
              split at h
              next wouldInsert hfound =>
                  cases h
                  rw [knownMismatch, Machine.recordNamed_eq]
                  exact ⟨rfl, rfl⟩
              next hfound =>
                  have hbody := body_mismatched (fun _ heval => (expr_mismatched heval).1) h
                  exact hbody
          next => exact body_mismatched (fun _ heval => (expr_mismatched heval).1) h

end Eval

end Peg
