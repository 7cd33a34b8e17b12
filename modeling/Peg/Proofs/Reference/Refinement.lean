import Peg.Proofs.Parse.Framed
import Peg.Proofs.Reference.Progress

/-!
# The machine follows the reference semantics

A first pass that remembers no mismatches ends as the reference semantics says, unless
the nesting of rule invocations reaches its limit.  The machine carries journals, frames
and counts along; what matters of it is the reading head, the values and the variables
of the innermost rule.

Main results:

- `Eval.refines_expr`: an expression follows the reference semantics if the rules it
  calls do.
- `Eval.ends_invoke`: every rule invocation ends as the reference semantics says.
-/

namespace Peg

open Text Reference

variable {V : Type}

/-- What matters of a machine. -/
def Machine.plain (m : Machine V) : State V :=
  ⟨m.cursor, ⟨m.stack.values, m.vars.view⟩⟩

namespace Eval

/-! ## Endings of evaluations -/

/-- The outcome of an evaluation is an ending with a property, unless it is that the
nesting of rule invocations has reached its limit. -/
def Ends (env : Env V) (P : Ending V → Prop) : Verdict × Machine V → Prop
  | (.matched, left) => P (.matched left.plain)
  | (.mismatched, left) => P (.mismatched left.plain)
  | (.aborted error, _) =>
    (∃ limit position, error = .recursionLimit limit position) ∨
      ∃ rule offset cause,
        error = .action (env.grammar.ruleName rule) (env.source.position offset) cause ∧
          P (.aborted rule offset cause)

variable {env : Env V} {P Q : Ending V → Prop} {error : ParseError} {m left other : Machine V}

/-- An ending has every property that follows from one it has. -/
theorem Ends.imp {outcome : Verdict × Machine V} (h : Ends env P outcome)
    (himp : ∀ ending, P ending → Q ending) : Ends env Q outcome := by
  rcases outcome with ⟨_ | _ | error, left⟩
  · exact himp _ h
  · exact himp _ h
  · rcases h with hlimit | ⟨rule, offset, cause, herror, hending⟩
    · exact Or.inl hlimit
    · exact Or.inr ⟨rule, offset, cause, herror, himp _ hending⟩

/-- What is true of all errors of actions carries over when an evaluation is aborted. -/
theorem Ends.abort (h : Ends env P (.aborted error, left))
    (himp : ∀ rule offset cause, P (.aborted rule offset cause) → Q (.aborted rule offset cause)) :
    Ends env Q (.aborted error, other) := by
  rcases h with hlimit | ⟨rule, offset, cause, herror, hending⟩
  · exact Or.inl hlimit
  · exact Or.inr ⟨rule, offset, cause, herror, himp _ _ _ hending⟩

/-- The commitment does not matter. -/
theorem ends_keepingCommitment {eval : Eval V} (h : Ends env P (eval m)) :
    Ends env P (keepingCommitment eval m) := by
  unfold keepingCommitment
  generalize eval m = outcome at h ⊢
  rcases outcome with ⟨_ | _ | _, left⟩
  · exact h
  · exact h
  · exact h

/-- Going back after a mismatch. -/
theorem ends_rewinding {eval : Eval V} (h : Ends env P (eval m)) :
    Ends env (fun ending => ∃ inner, P inner ∧ ending = inner.rewind m.plain)
      (rewinding eval m) := by
  unfold rewinding
  generalize eval m = outcome at h ⊢
  rcases outcome with ⟨_ | _ | _, left⟩
  · exact ⟨_, h, rfl⟩
  · exact ⟨_, h, rfl⟩
  · exact h.abort fun rule offset cause hending => ⟨_, hending, rfl⟩

/-- An evaluation inside of a rule ends as the reference semantics of a goal says. -/
structure Refines (env : Env V) (id : RuleId) (goal : Goal V) (eval : Eval V) : Prop where
  framed : Framed env eval
  ends : ∀ m : Machine V, m.Valid env → m.rule? = some id →
    Ends env (Runs env.grammar env.source.text id goal m.plain) (eval m)

/-! ## Terminals and actions -/

section Pass

variable {id : RuleId} (hpass : env.pass = .first)
include hpass

/-- A terminal ends as the reference semantics says, without repairs in the first pass. -/
theorem ends_terminal {e : Expr V} (hterminal : e.isTerminal = true) (m : Machine V) :
    Ends env (Runs env.grammar env.source.text id (.expr e) m.plain) (terminal env e m) := by
  unfold terminal
  split
  next behind hconsume =>
      rcases consume?_eq_some_iff.1 hconsume with ⟨consumed, haccepts, hpast⟩
      exact Runs.read haccepts hpast
  next hconsume =>
      have hnone : ∀ consumed behind, e.Accepts consumed behind.rest →
          ¬ m.cursor.Past consumed behind := by
        intro consumed behind haccepts hpast
        rw [consume?_eq_some_iff.2 ⟨consumed, haccepts, hpast⟩] at hconsume
        cases hconsume
      simp only [missing, hpass]
      rw [Machine.recordFailure_eq]
      exact Runs.stuck hterminal hnone

/-- An action does to the plain data what it does to the machine. -/
theorem ends_runAction (action : Action V) (span : Span) (hm : m.Valid env)
    (hrule : m.rule? = some id) :
    Ends env (act env.source.text id action span m.plain = ·)
      (runAction env action span false m) := by
  have hrun := Workspace.runOn_memory (action ⟨env.source.text, span, false, false⟩)
    ⟨m.stack, m.vars⟩ hm.vars
  have hrepair : env.pass.isRepair = false := by rw [hpass]; rfl
  have hmemory : m.plain.memory = Workspace.memory ⟨m.stack, m.vars⟩ := rfl
  simp only [runAction, act, hrepair, hmemory, hrun]
  generalize (action ⟨env.source.text, span, false, false⟩).run ⟨m.stack, m.vars⟩ = result
  rcases result with ⟨cause | _ | _, space⟩
  · exact Or.inr ⟨id, span.stop, cause, by rw [hrule]; rfl, rfl⟩
  · rfl
  · rfl

/-! ## Sequences -/

omit hpass in
theorem exists_of_isAction {e : Expr V} (h : e.isAction = true) :
    ∃ action, e = .action action := by
  cases e with
  | action action => exact ⟨action, rfl⟩
  | _ => cases h

omit hpass in
theorem ofExpr_of_not_isAction {e : Expr V} (h : e.isAction = false) (eval : Eval V) :
    Element.ofExpr eval e = .part eval := by
  cases e with
  | action action => cases h
  | _ => rfl

/-- The items of a sequence end as the reference semantics says, one after another. -/
theorem ends_runElements {evals : Expr V → Eval V} {items : List (Expr V)}
    (hitems : ∀ item ∈ items, Refines env id (.expr item) (evals item)) (start : Nat)
    (inherited : Bool) (previous : Span) (hm : m.Valid env) (hrule : m.rule? = some id) :
    Ends env (Runs env.grammar env.source.text id (.items items previous) m.plain)
      (runElements env start inherited
        (items.map fun item => Element.ofExpr (evals item) item) previous false m) := by
  induction items generalizing m previous with
  | nil => exact Runs.done
  | cons item items ih =>
      have hrest : ∀ item ∈ items, Refines env id (.expr item) (evals item) :=
        fun item hitem => hitems item (List.mem_cons_of_mem _ hitem)
      cases haction : item.isAction with
      | true =>
          rcases exists_of_isAction haction with ⟨action, rfl⟩
          have hframe := framed_runAction action previous false m hm
          have hact := ends_runAction hpass action previous hm hrule
          rw [List.map_cons, Element.ofExpr, runElements]
          generalize runAction env action previous false m = outcome at hframe hact ⊢
          rcases outcome with ⟨_ | _ | _, left⟩
          · have hnext := ih hrest previous (Machine.Frame.valid hframe)
              ((Machine.Frame.rule? hframe).trans hrule)
            exact hnext.imp fun ending => Runs.act_next hact
          · exact Runs.act_last hact rfl
          · exact hact.abort fun rule offset cause hact => Runs.act_last hact rfl
      | false =>
          have hpart := hitems item List.mem_cons_self
          have hvalid : Machine.Valid env
              { m with committed := inherited || start < m.offset } := ⟨hm.within, hm.vars⟩
          have hframe := hpart.framed.committing hm (inherited || start < m.offset)
          have hruns := hpart.ends _ hvalid hrule
          rw [List.map_cons, ofExpr_of_not_isAction haction, runElements]
          generalize evals item { m with committed := inherited || start < m.offset } = outcome
            at hframe hruns ⊢
          rcases outcome with ⟨_ | _ | _, left⟩
          · have hframe : m.Frame env { left with committed := m.committed } := hframe
            have hleft : left.Valid env := ⟨hframe.valid.within, hframe.valid.vars⟩
            have hinserted : left.inserted = m.inserted :=
              congrArg List.length (hframe.gaps_first hpass)
            have hnext := ih hrest ⟨m.offset, left.offset⟩ hleft (hframe.rule?.trans hrule)
            simp only [hinserted, Nat.lt_irrefl, decide_false, Bool.and_false]
            exact hnext.imp fun ending => Runs.item_next haction hruns
          · exact Runs.item_last haction hruns rfl
          · exact hruns.abort fun rule offset cause hending =>
              Runs.item_last haction hending rfl

/-! ## Choices -/

omit hpass in
/-- Alternatives end as the reference semantics says of the choice between them. -/
theorem ends_alternatives {evals : Expr V → Eval V} {items : List (Expr V)}
    (hitems : ∀ item ∈ items, Refines env id (.expr item) (evals item)) (hm : m.Valid env)
    (hrule : m.rule? = some id) :
    Ends env (Runs env.grammar env.source.text id (.expr (.choice items)) m.plain)
      (alternatives (items.map evals) m) := by
  induction items generalizing m with
  | nil => exact Runs.choice_nil
  | cons item items ih =>
      have hfirst := hitems item List.mem_cons_self
      have hframe := hfirst.framed m hm
      have hruns := hfirst.ends m hm hrule
      rw [List.map_cons, alternatives]
      generalize evals item m = outcome at hframe hruns ⊢
      rcases outcome with ⟨_ | _ | _, left⟩
      · exact Runs.choice_last hruns rfl
      · dsimp only
        split
        next hempty =>
            obtain rfl : items = [] := by simpa using hempty
            exact Runs.choice_next hruns Runs.choice_nil
        next =>
            have hback : m.Frame env left.backtrack := Machine.Frame.observe hframe _ _
            have hrest := ih (fun item hitem => hitems item (List.mem_cons_of_mem _ hitem))
              hback.valid (hback.rule?.trans hrule)
            exact hrest.imp fun ending => Runs.choice_next hruns
      · exact hruns.abort fun rule offset cause hending => Runs.choice_last hending rfl

/-- A first pass tries the alternatives once. -/
theorem choice_eq_alternatives (items : List (Eval V)) : choice env items = alternatives items := by
  funext m
  simp [choice, takesTwoRounds, hpass, Pass.isRepair]

end Pass

/-! ## Repetitions and options -/

section Loops

variable {known : RuleId → Bool} {id : RuleId} {body : Expr V} {eval : Eval V}
variable (haccepted : env.grammar.Accepted known)
variable (hsize : env.source.size = byteSize env.source.text)

/-- A match of what is not nullable leaves less of the text. -/
theorem remaining_lt (haccepted : env.grammar.Accepted known)
    (hsize : env.source.size = byteSize env.source.text)
    (hnullable : body.nullable known = false) (hleft : left.Valid env)
    (hoffset : m.offset ≤ left.offset)
    (hruns : Runs env.grammar env.source.text id (.expr body) m.plain (.matched left.plain)) :
    remaining env left < remaining env m := by
  rcases hleft.within with ⟨front, htext, hfront⟩
  have hbound : left.offset ≤ env.source.size := by
    rw [hsize, htext, byteSize_append, Machine.offset, hfront]
    exact Nat.le_add_right _ _
  have hne : left.offset ≠ m.offset := by
    intro heq
    rw [hruns.nullable_of_offset_eq haccepted.closed heq] at hnullable
    cases hnullable
  unfold remaining
  omega

include haccepted hsize

/-- Iterations end as the reference semantics says; none of them is empty, so none is cut short.
-/
theorem ends_many (hbody : Refines env id (.expr body) eval)
    (hnullable : body.nullable known = false) (hm : m.Valid env) (hrule : m.rule? = some id) :
    Ends env (Runs env.grammar env.source.text id (.expr (.star body)) m.plain)
      (many env eval m) := by
  -- The loop would also end after an empty match, but there is none.
  fun_induction many env eval m with
  | case1 m next heval hless ih =>
      have hframe := hbody.framed.committing hm false
      have hruns := hbody.ends { m with committed := false } ⟨hm.within, hm.vars⟩ hrule
      rw [heval] at hframe hruns
      have hvalid := Machine.Frame.valid hframe
      have hrest := ih ⟨hvalid.within, hvalid.vars⟩ ((Machine.Frame.rule? hframe).trans hrule)
      exact hrest.imp fun ending => Runs.star_next hruns
  | case2 m next heval hless =>
      have hframe := hbody.framed.committing hm false
      have hruns := hbody.ends { m with committed := false } ⟨hm.within, hm.vars⟩ hrule
      rw [heval] at hframe hruns
      have hvalid := Machine.Frame.valid hframe
      exact absurd (remaining_lt haccepted hsize hnullable ⟨hvalid.within, hvalid.vars⟩
        (Machine.Frame.offset_le hframe) hruns) hless
  | case3 m next heval =>
      have hruns := hbody.ends { m with committed := false } ⟨hm.within, hm.vars⟩ hrule
      rw [heval] at hruns
      exact Runs.star_last hruns rfl
  | case4 m error next heval =>
      have hruns := hbody.ends { m with committed := false } ⟨hm.within, hm.vars⟩ hrule
      rw [heval] at hruns
      exact hruns.abort fun rule offset cause hending => Runs.star_last hending rfl

/-- The same with a first iteration that must match. -/
theorem ends_plus (hbody : Refines env id (.expr body) eval)
    (hnullable : body.nullable known = false) (hm : m.Valid env) (hrule : m.rule? = some id) :
    Ends env (Runs env.grammar env.source.text id (.expr (.plus body)) m.plain)
      (plus env eval m) := by
  refine ends_keepingCommitment ?_
  have hframe := hbody.framed m hm
  have hruns := hbody.ends m hm hrule
  generalize eval m = outcome at hframe hruns ⊢
  rcases outcome with ⟨_ | _ | _, next⟩
  · have hvalid := Machine.Frame.valid hframe
    have hless := remaining_lt haccepted hsize hnullable hvalid
      (Machine.Frame.offset_le hframe) hruns
    have hrest := ends_many haccepted hsize hbody hnullable hvalid
      ((Machine.Frame.rule? hframe).trans hrule)
    simp only [hless, if_true]
    exact hrest.imp fun ending => Runs.plus_next hruns
  · exact Runs.plus_last hruns rfl
  · exact hruns.abort fun rule offset cause hending => Runs.plus_last hending rfl

omit haccepted hsize in
/-- An option ends as the reference semantics says. -/
theorem ends_optional (hbody : Refines env id (.expr body) eval) (hm : m.Valid env)
    (hrule : m.rule? = some id) :
    Ends env (Runs env.grammar env.source.text id (.expr (.optional body)) m.plain)
      (optional eval m) := by
  refine ends_keepingCommitment ?_
  have hruns := hbody.ends { m with committed := false } ⟨hm.within, hm.vars⟩ hrule
  generalize eval { m with committed := false } = outcome at hruns ⊢
  rcases outcome with ⟨_ | _ | _, next⟩
  · exact Runs.optional hruns
  · exact Runs.optional hruns
  · exact hruns.abort fun rule offset cause hending => Runs.optional hending

end Loops

/-! ## Lookahead, labels and rules -/

section Scopes

variable {id : RuleId} {body : Expr V} {eval : Eval V}

/-- The stack comes back from the journal as it was. -/
theorem plain_closeProbe (h : Machine.Frame env (openProbe m) left) :
    (closeProbe m left).plain = Ending.restore m.plain left.plain := by
  have hstack : left.stack.rollback = m.stack := h.tracks.rollback_eq
  simp [Machine.plain, closeProbe, Ending.restore, hstack]

/-- A lookahead ends as its body does, turned around where it must not match, with the data
restored. -/
theorem ends_ahead (expectMatch : Bool) (hbody : Refines env id (.expr body) eval)
    (hm : m.Valid env) (hrule : m.rule? = some id) :
    Ends env
      (fun ending => ∃ inner, Runs env.grammar env.source.text id (.expr body) m.plain inner ∧
        ending = inner.lookahead expectMatch m.plain)
      (ahead expectMatch eval m) := by
  have hframe := hbody.framed (openProbe m) ⟨hm.within, hm.vars⟩
  have hruns := hbody.ends (openProbe m) ⟨hm.within, hm.vars⟩ hrule
  unfold ahead
  generalize eval (openProbe m) = outcome at hframe hruns ⊢
  rcases outcome with ⟨_ | _ | _, left⟩
  · have hplain := plain_closeProbe hframe
    cases expectMatch <;> exact ⟨_, hruns, by rw [hplain]; rfl⟩
  · have hplain := plain_closeProbe hframe
    cases expectMatch <;> exact ⟨_, hruns, by rw [hplain]; rfl⟩
  · exact hruns.abort fun rule offset cause hending => ⟨_, hending, rfl⟩

/-- A label leaves the plain data alone. -/
theorem ends_labeled (name : String) (hbody : Refines env id (.expr body) eval)
    (hm : m.Valid env) (hrule : m.rule? = some id) :
    Ends env (Runs env.grammar env.source.text id (.expr body) m.plain)
      (labeled env name eval m) := by
  have hruns := hbody.ends { m with nodes := [], scopes := (.label name, m.offset) :: m.scopes }
    ⟨hm.within, hm.vars⟩ hrule
  unfold labeled
  generalize eval { m with nodes := [], scopes := (.label name, m.offset) :: m.scopes } = outcome
    at hruns ⊢
  rcases outcome with ⟨_ | _ | _, left⟩
  · exact hruns
  · dsimp only
    rw [Machine.recordNamed_eq]
    exact hruns
  · exact hruns

/-- A rule starts without variables. -/
theorem plain_enterRule (definition : Rule V) :
    (enterRule id definition m).plain = { m.plain with memory := m.plain.memory.fresh } := by
  simp [Machine.plain, enterRule, Memory.fresh]

/-- The caller's variables come back from the table as they were. -/
theorem view_leaveRule {definition : Rule V}
    (h : Machine.Frame env (enterRule id definition m) left) :
    (leaveRule definition m left).vars.view = m.vars.view := by
  have hvars : left.vars.leave = m.vars := h.callers.leave_eq
  simp [leaveRule, hvars]

/-- A rule ends as its body does from fresh variables, and gives the caller's back. -/
theorem ends_body {definition : Rule V} (hbody : Refines env id (.expr body) eval)
    (hm : m.Valid env) :
    Ends env
      (fun ending => ∃ inner,
        Runs env.grammar env.source.text id (.expr body)
          { m.plain with memory := m.plain.memory.fresh } inner ∧
        ending = inner.giveBack m.plain)
      (Eval.body env id definition none eval m) := by
  have hvalid : (enterRule id definition m).Valid env := ⟨hm.within, m.vars.valid_enter⟩
  have hframe := hbody.framed _ hvalid
  have hruns := hbody.ends _ hvalid rfl
  rw [plain_enterRule] at hruns
  unfold Eval.body
  generalize eval (enterRule id definition m) = outcome at hframe hruns ⊢
  rcases outcome with ⟨_ | _ | _, left⟩
  · have hview := view_leaveRule hframe
    refine ⟨_, hruns, ?_⟩
    rw [contribute_eq]
    exact congrArg (fun vars => Ending.matched ⟨left.cursor, ⟨left.stack.values, vars⟩⟩) hview
  · have hview := view_leaveRule hframe
    refine ⟨_, hruns, ?_⟩
    rw [Machine.recordNamed_eq]
    exact congrArg (fun vars => Ending.mismatched ⟨left.cursor, ⟨left.stack.values, vars⟩⟩) hview
  · exact hruns.abort fun rule offset cause hending => ⟨_, hending, rfl⟩

end Scopes

/-! ## Expressions -/

section Expressions

variable {known : RuleId → Bool} {id : RuleId}

/-- The reference semantics goes back after a mismatch as well. -/
theorem ends_rewinding_expr (haccepted : env.grammar.Accepted known) {e : Expr V} {eval : Eval V}
    (h : Ends env (Runs env.grammar env.source.text id (.expr e) m.plain) (eval m)) :
    Ends env (Runs env.grammar env.source.text id (.expr e) m.plain) (rewinding eval m) := by
  refine (ends_rewinding h).imp ?_
  rintro _ ⟨inner, hruns, rfl⟩
  rw [hruns.rewind_eq haccepted.closed]
  exact hruns

variable (hpass : env.pass = .first) (haccepted : env.grammar.Accepted known)
variable (hsize : env.source.size = byteSize env.source.text)
include hpass haccepted hsize

/-- An expression follows the reference semantics if the rules it calls do. -/
theorem refines_expr {call : RuleId → Eval V} (hframed : ∀ next, Framed env (call next))
    (hcall : ∀ next definition, env.grammar.rule? next = some definition →
      ∀ m : Machine V, m.Valid env →
        Ends env (Runs env.grammar env.source.text id (.expr (.rule next)) m.plain) (call next m))
    {e : Expr V} (hsound : e.Sound env.grammar known) :
    Refines env id (.expr e) (expr env call e) := by
  induction e using Expr.induction_children with
  | step e ih =>
      have hparts : ∀ part ∈ e.children, Refines env id (.expr part) (expr env call part) :=
        fun part hpart => ih part hpart (hsound.child hpart)
      refine ⟨framed_expr hframed e, fun m hm hrule => ?_⟩
      cases e with
      | seq items =>
          have hitems := ends_runElements hpass hparts m.offset m.committed
            (Span.emptyAt m.offset) hm hrule
          rw [← elements_eq_map] at hitems
          refine (ends_rewinding (ends_keepingCommitment hitems)).imp ?_
          rintro _ ⟨inner, hruns, rfl⟩
          exact .seq hruns
      | choice items =>
          have hitems := ends_alternatives hparts hm hrule
          rw [← evalAll_eq_map, ← choice_eq_alternatives hpass] at hitems
          exact ends_rewinding_expr haccepted hitems
      | star body =>
          have hnullable := hsound.star body (Expr.mem_subterms_self _)
          have hbody := ends_many haccepted hsize (hparts body List.mem_cons_self) hnullable hm
            hrule
          exact ends_rewinding_expr haccepted (ends_keepingCommitment hbody)
      | plus body =>
          have hnullable := hsound.plus body (Expr.mem_subterms_self _)
          exact ends_rewinding_expr haccepted
            (ends_plus haccepted hsize (hparts body List.mem_cons_self) hnullable hm hrule)
      | optional body =>
          exact ends_rewinding_expr haccepted
            (ends_optional (hparts body List.mem_cons_self) hm hrule)
      | notAhead body =>
          refine ends_rewinding_expr haccepted
            ((ends_ahead false (hparts body List.mem_cons_self) hm hrule).imp ?_)
          rintro _ ⟨inner, hruns, rfl⟩
          exact .notAhead hruns
      | ahead body =>
          refine ends_rewinding_expr haccepted
            ((ends_ahead true (hparts body List.mem_cons_self) hm hrule).imp ?_)
          rintro _ ⟨inner, hruns, rfl⟩
          exact .ahead hruns
      | rule next =>
          rcases hsound.mentioned next (Expr.mem_subterms_self _) with ⟨definition, hdefinition⟩
          exact ends_rewinding_expr haccepted (hcall next definition hdefinition m hm)
      | label name body =>
          refine ends_rewinding_expr haccepted
            ((ends_labeled name (hparts body List.mem_cons_self) hm hrule).imp ?_)
          exact fun ending hruns => .label hruns
      | action action =>
          refine ends_rewinding_expr haccepted
            ((ends_runAction hpass action (Span.emptyAt m.offset) hm hrule).imp ?_)
          rintro _ rfl
          exact .action
      | _ => exact ends_rewinding_expr haccepted (ends_terminal hpass rfl m)

/-- Every rule invocation ends as the reference semantics says. -/
theorem ends_invoke (hmemoization : env.settings.memoization = false) (allowance : Nat)
    {next : RuleId} {definition : Rule V} (hdefinition : env.grammar.rule? next = some definition)
    (m : Machine V) (hm : m.Valid env) :
    Ends env (Runs env.grammar env.source.text id (.expr (.rule next)) m.plain)
      (invoke env allowance next m) := by
  induction allowance generalizing id next definition m with
  | zero =>
      simp only [invoke, hdefinition]
      exact Or.inl ⟨_, _, rfl⟩
  | succ allowance ih =>
      have hbody : Refines env next (.expr definition.body)
          (expr env (invoke env allowance) definition.body) :=
        refines_expr hpass haccepted hsize (framed_invoke allowance)
          (fun other definition hother m hm => ih hother m hm) (haccepted.sound hdefinition)
      rw [invoke_succ env allowance hdefinition, Eval.rule, hmemoization]
      refine (ends_body hbody hm).imp ?_
      rintro _ ⟨inner, hruns, rfl⟩
      exact .rule hdefinition hruns

end Expressions

end Eval

end Peg
