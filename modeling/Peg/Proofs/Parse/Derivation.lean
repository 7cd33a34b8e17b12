import Peg.Proofs.Parse.FirstPass
import Peg.Proofs.Parse.Simulation

/-!
# Derivations of a parse

How an outcome of a parse came about, as a big-step relation.  A derivation follows
the evaluation of an expression, part by part, and lists the repairs that were made on
the way, in the order they were made: where each was made, during which lookaheads,
options and iterations, and whether what it belongs to was kept or gone back on.

Main results:

- `Derives.run_eq` and `exists_derives`: the derivable outcomes are those of the
  evaluation.
- `Derives.raise`: an outcome that did not run into the limit of nested invocations
  does not depend on the limit.
- `Derives.gaps_eq`: the gaps of a machine are the repairs of its derivation.
-/

namespace Peg

open Text

variable {V : Type}

/-! ## Repairs on the way -/

/-- What may be going on around a repair. -/
inductive Surrounding where
  /-- A lookahead. -/
  | lookahead
  /-- An option, or an iteration that need not match, that started at an offset. -/
  | attempt (start : Nat)
  deriving DecidableEq, Repr

/-- A repair, as it was made. -/
structure StandIn where
  /-- Where it was made. -/
  offset : Nat
  /-- What was recorded of it. -/
  gap : Gap
  /-- What was going on around it, outermost first. -/
  within : List Surrounding
  /-- Whether the match that it belongs to was kept. -/
  kept : Bool
  deriving DecidableEq, Repr

namespace StandIn

/-- A repair inside of something. -/
def inside (surrounding : Surrounding) (standIn : StandIn) : StandIn :=
  { standIn with within := surrounding :: standIn.within }

/-- A repair that was gone back on. -/
def drop (standIn : StandIn) : StandIn :=
  { standIn with kept := false }

/-- A repair in a lookahead, all of which is gone back on. -/
def probed (standIn : StandIn) : StandIn :=
  (standIn.inside .lookahead).drop

end StandIn

/-- What becomes of the repairs in a sequence: if it does not match, the parts of it
that did are gone back on. -/
def Verdict.settle : Verdict → List StandIn → List StandIn
  | .mismatched, made => made.map .drop
  | _, made => made

/-- Whether an evaluation ran into the limit of nested invocations. -/
def Verdict.limited : Verdict → Bool
  | .aborted (.recursionLimit ..) => true
  | _ => false

/-- A verdict tells of no limit exactly if it is no error of that kind. -/
theorem Verdict.limited_eq_false_iff {verdict : Verdict} : verdict.limited = false ↔
    ∀ limit position, verdict ≠ .aborted (.recursionLimit limit position) := by
  unfold limited
  split <;> simp_all

namespace Eval

/-- The outcome of an option or of an iteration that need not match. -/
def accepted : Verdict × Machine V → Verdict × Machine V
  | (.mismatched, left) => (.matched, left)
  | outcome => outcome

/-- The repairs made where a terminal is to be matched: one, or none. -/
def standIns (env : Env V) (terminal : Expr V) (m : Machine V) : List StandIn :=
  match consume? terminal m.cursor, env.pass with
  | none, .repair errorOffset =>
    if mayStandIn env errorOffset terminal m && m.mayInsert then
      [⟨m.offset, ⟨env.source.position m.offset, m.missingName env terminal⟩, [], true⟩]
    else []
  | _, _ => []

/-! ## Looking up a rule -/

/-- The key under which a mismatch of a rule is remembered, if the rule asks for it. -/
def memoKey? (env : Env V) (id : RuleId) (rule : Rule V) (m : Machine V) : Option MemoKey :=
  if env.settings.memoization && rule.options.memoMismatches then
    some ⟨id, m.offset, m.memoContext env⟩
  else none

/-- What is known of a mismatch of a rule. -/
def known? (env : Env V) (id : RuleId) (rule : Rule V) (m : Machine V) : Option Bool :=
  (memoKey? env id rule m).bind m.memo.find?

/-- A look-up that found nothing is counted. -/
def countMiss (env : Env V) (rule : Rule V) (m : Machine V) : Machine V :=
  if env.settings.memoization && rule.options.memoMismatches then
    { m with stats := { m.stats with memoMisses := m.stats.memoMisses + 1 } }
  else m

/-- Without a memo nothing is looked up. -/
theorem memoKey?_eq_none {env : Env V} (h : env.settings.memoization = false) (id : RuleId)
    (rule : Rule V) (m : Machine V) : memoKey? env id rule m = none := by
  simp [memoKey?, h]

/-- Without a memo no mismatch is known. -/
theorem known?_eq_none {env : Env V} (h : env.settings.memoization = false) (id : RuleId)
    (rule : Rule V) (m : Machine V) : known? env id rule m = none := by
  rw [known?, memoKey?_eq_none h]
  rfl

/-- Without a memo no look-up is counted. -/
theorem countMiss_of_off {env : Env V} (h : env.settings.memoization = false) (rule : Rule V)
    (m : Machine V) : countMiss env rule m = m := by
  simp [countMiss, h]

/-- A rule is looked up, and its body is matched only if nothing is known of it. -/
theorem rule_eq (env : Env V) (id : RuleId) (definition : Rule V) (eval : Eval V)
    (m : Machine V) :
    rule env id definition eval m =
      match known? env id definition m with
      | some refused => (.mismatched, knownMismatch env id refused m)
      | none =>
        body env id definition (memoKey? env id definition m) eval
          (countMiss env definition m) := by
  unfold rule known? memoKey? countMiss
  split
  next => rfl
  next => rfl

/-- Counting changes nothing but the counts. -/
theorem countMiss_eq (env : Env V) (rule : Rule V) (m : Machine V) :
    countMiss env rule m = { m with stats := (countMiss env rule m).stats } := by
  unfold countMiss
  split <;> rfl

end Eval

/-! ## Derivations -/

/-- What there is to evaluate. -/
inductive Task (V : Type) where
  /-- An expression. -/
  | expr (e : Expr V)
  /-- The rest of a sequence that started at an offset under a commitment, given the
  previous match. -/
  | items (start : Nat) (inherited : Bool) (parts : List (Expr V)) (previous : Span)
      (synthetic : Bool)
  /-- The alternatives that are left of a choice. -/
  | alternatives (parts : List (Expr V))
  /-- The iterations that are left of a repetition. -/
  | many (body : Expr V)
  /-- The invocation of a rule. -/
  | call (id : RuleId)

/-- The evaluation of a task, given how many more invocations may be nested in it. -/
def Task.run (env : Env V) (allowance : Nat) : Task V → Eval V
  | .expr e => Eval.expr env (Eval.invoke env allowance) e
  | .items start inherited parts previous synthetic =>
    Eval.runElements env start inherited (Eval.elements env (Eval.invoke env allowance) parts)
      previous synthetic
  | .alternatives parts =>
    Eval.alternatives (Eval.evalAll env (Eval.invoke env allowance) parts)
  | .many body => Eval.many env (Eval.expr env (Eval.invoke env allowance) body)
  | .call id => Eval.invoke env allowance id

/-- All actions in a task are of one kind. -/
def Task.Admits (allows : Action V → Prop) : Task V → Prop
  | .expr e | .many e => e.Admits allows
  | .items _ _ parts _ _ | .alternatives parts => ∀ part ∈ parts, part.Admits allows
  | .call _ => True

open Eval in
/-- An evaluation has an outcome, and makes repairs on the way. -/
inductive Derives (env : Env V) :
    Nat → Task V → Machine V → Verdict × Machine V → List StandIn → Prop
  | terminal {a : Nat} {e : Expr V} {m : Machine V} (hterminal : e.isTerminal = true) :
      Derives env a (.expr e) m (rewinding (terminal env e) m) (standIns env e m)
  | action {a : Nat} {action : Action V} {m : Machine V} :
      Derives env a (.expr (.action action)) m
        (rewinding (runAction env action (Span.emptyAt m.offset) false) m) []
  | seq {a : Nat} {items : List (Expr V)} {m : Machine V} {o : Verdict × Machine V}
      {made : List StandIn}
      (hitems : Derives env a (.items m.offset m.committed items (Span.emptyAt m.offset) false)
        m o made) :
      Derives env a (.expr (.seq items)) m (rewinding (keepingCommitment fun _ => o) m)
        (o.1.settle made)
  | done {a start : Nat} {inherited : Bool} {previous : Span} {synthetic : Bool}
      {m : Machine V} :
      Derives env a (.items start inherited [] previous synthetic) m (.matched, m) []
  | act_next {a start : Nat} {inherited : Bool} {action : Action V} {items : List (Expr V)}
      {previous : Span} {synthetic : Bool} {m left : Machine V} {o : Verdict × Machine V}
      {made : List StandIn}
      (hact : runAction env action previous synthetic m = (.matched, left))
      (hrest : Derives env a (.items start inherited items previous synthetic) left o made) :
      Derives env a (.items start inherited (.action action :: items) previous synthetic) m o made
  | act_last {a start : Nat} {inherited : Bool} {action : Action V} {items : List (Expr V)}
      {previous : Span} {synthetic : Bool} {m : Machine V}
      (hends : (runAction env action previous synthetic m).1 ≠ .matched) :
      Derives env a (.items start inherited (.action action :: items) previous synthetic) m
        (runAction env action previous synthetic m) []
  | part_next {a start : Nat} {inherited : Bool} {item : Expr V} {items : List (Expr V)}
      {previous : Span} {synthetic : Bool} {m left : Machine V} {o : Verdict × Machine V}
      {made later : List StandIn} (hitem : item.isAction = false)
      (hpart : Derives env a (.expr item) { m with committed := inherited || start < m.offset }
        (.matched, left) made)
      (hrest : Derives env a
        (.items start inherited items ⟨m.offset, left.offset⟩
          (Span.isEmpty ⟨m.offset, left.offset⟩ && m.inserted < left.inserted)) left o later) :
      Derives env a (.items start inherited (item :: items) previous synthetic) m o
        (made ++ later)
  | part_last {a start : Nat} {inherited : Bool} {item : Expr V} {items : List (Expr V)}
      {previous : Span} {synthetic : Bool} {m : Machine V} {o : Verdict × Machine V}
      {made : List StandIn} (hitem : item.isAction = false)
      (hpart : Derives env a (.expr item) { m with committed := inherited || start < m.offset }
        o made) (hends : o.1 ≠ .matched) :
      Derives env a (.items start inherited (item :: items) previous synthetic) m o made
  | choice_once {a : Nat} {items : List (Expr V)} {m : Machine V} {o : Verdict × Machine V}
      {made : List StandIn} (honce : takesTwoRounds env m = false)
      (hround : Derives env a (.alternatives items) m o made) :
      Derives env a (.expr (.choice items)) m (rewinding (fun _ => o) m) made
  | choice_first {a : Nat} {items : List (Expr V)} {m : Machine V} {o : Verdict × Machine V}
      {made : List StandIn} (htwo : takesTwoRounds env m = true)
      (hround : Derives env a (.alternatives items) (openRound m) o made)
      (hends : ¬ (o.1 = .mismatched ∧ o.2.wouldInsert = true)) :
      Derives env a (.expr (.choice items)) m (rewinding (fun _ => (o.1, keepRound m o.2)) m)
        made
  | choice_second {a : Nat} {items : List (Expr V)} {m left : Machine V}
      {o : Verdict × Machine V} {made later : List StandIn}
      (htwo : takesTwoRounds env m = true)
      (hround : Derives env a (.alternatives items) (openRound m) (.mismatched, left) made)
      (hnoted : left.wouldInsert = true)
      (hagain : Derives env a (.alternatives items) (undoRound m left) o later) :
      Derives env a (.expr (.choice items)) m (rewinding (fun _ => o) m) (made ++ later)
  | no_alternative {a : Nat} {m : Machine V} :
      Derives env a (.alternatives []) m (.mismatched, m) []
  | alternative_next {a : Nat} {item : Expr V} {items : List (Expr V)} {m left : Machine V}
      {o : Verdict × Machine V} {made later : List StandIn} (hmore : items ≠ [])
      (hfirst : Derives env a (.expr item) m (.mismatched, left) made)
      (hrest : Derives env a (.alternatives items) left.backtrack o later) :
      Derives env a (.alternatives (item :: items)) m o (made ++ later)
  | alternative_last {a : Nat} {item : Expr V} {items : List (Expr V)} {m : Machine V}
      {o : Verdict × Machine V} {made : List StandIn} (hends : o.1 = .mismatched → items = [])
      (hfirst : Derives env a (.expr item) m o made) :
      Derives env a (.alternatives (item :: items)) m o made
  | star {a : Nat} {body : Expr V} {m : Machine V} {o : Verdict × Machine V}
      {made : List StandIn} (hmany : Derives env a (.many body) m o made) :
      Derives env a (.expr (.star body)) m (rewinding (keepingCommitment fun _ => o) m) made
  | many_next {a : Nat} {body : Expr V} {m left : Machine V} {o : Verdict × Machine V}
      {made later : List StandIn}
      (hfirst : Derives env a (.expr body) { m with committed := false } (.matched, left) made)
      (hless : remaining env left < remaining env m)
      (hrest : Derives env a (.many body) left o later) :
      Derives env a (.many body) m o (made.map (.inside (.attempt m.offset)) ++ later)
  | many_last {a : Nat} {body : Expr V} {m : Machine V} {o : Verdict × Machine V}
      {made : List StandIn}
      (hfirst : Derives env a (.expr body) { m with committed := false } o made)
      (hends : o.1 = .matched → ¬ remaining env o.2 < remaining env m) :
      Derives env a (.many body) m (accepted o) (made.map (.inside (.attempt m.offset)))
  | plus_next {a : Nat} {body : Expr V} {m left : Machine V} {o : Verdict × Machine V}
      {made later : List StandIn}
      (hfirst : Derives env a (.expr body) m (.matched, left) made)
      (hless : remaining env left < remaining env m)
      (hrest : Derives env a (.many body) left o later) :
      Derives env a (.expr (.plus body)) m (rewinding (keepingCommitment fun _ => o) m)
        (made ++ later)
  | plus_last {a : Nat} {body : Expr V} {m : Machine V} {o : Verdict × Machine V}
      {made : List StandIn} (hfirst : Derives env a (.expr body) m o made)
      (hends : o.1 = .matched → ¬ remaining env o.2 < remaining env m) :
      Derives env a (.expr (.plus body)) m (rewinding (keepingCommitment fun _ => o) m) made
  | optional {a : Nat} {body : Expr V} {m : Machine V} {o : Verdict × Machine V}
      {made : List StandIn}
      (hbody : Derives env a (.expr body) { m with committed := false } o made) :
      Derives env a (.expr (.optional body)) m (rewinding (Eval.optional fun _ => o) m)
        (made.map (.inside (.attempt m.offset)))
  | notAhead {a : Nat} {body : Expr V} {m : Machine V} {o : Verdict × Machine V}
      {made : List StandIn} (hbody : Derives env a (.expr body) (openProbe m) o made) :
      Derives env a (.expr (.notAhead body)) m (rewinding (Eval.ahead false fun _ => o) m)
        (made.map .probed)
  | ahead {a : Nat} {body : Expr V} {m : Machine V} {o : Verdict × Machine V}
      {made : List StandIn} (hbody : Derives env a (.expr body) (openProbe m) o made) :
      Derives env a (.expr (.ahead body)) m (rewinding (Eval.ahead true fun _ => o) m)
        (made.map .probed)
  | label {a : Nat} {name : String} {body : Expr V} {m : Machine V} {o : Verdict × Machine V}
      {made : List StandIn} (hbody : Derives env a (.expr body) (openLabel name m) o made) :
      Derives env a (.expr (.label name body)) m (rewinding (labeled env name fun _ => o) m) made
  | rule {a : Nat} {id : RuleId} {m : Machine V} {o : Verdict × Machine V}
      {made : List StandIn} (hcall : Derives env a (.call id) m o made) :
      Derives env a (.expr (.rule id)) m (rewinding (fun _ => o) m) made
  | unknown {a : Nat} {id : RuleId} {m : Machine V} (hnone : env.grammar.rule? id = none) :
      Derives env a (.call id) m (.aborted (.unknownRoot id.index), m) []
  | limit {id : RuleId} {definition : Rule V} {m : Machine V}
      (hdefinition : env.grammar.rule? id = some definition) :
      Derives env 0 (.call id) m
        (.aborted (.recursionLimit env.settings.maxDepth (env.source.position m.offset)), m) []
  | hit {a : Nat} {id : RuleId} {definition : Rule V} {refused : Bool} {m : Machine V}
      (hdefinition : env.grammar.rule? id = some definition)
      (hknown : known? env id definition m = some refused) :
      Derives env (a + 1) (.call id) m (.mismatched, knownMismatch env id refused m) []
  | body {a : Nat} {id : RuleId} {definition : Rule V} {m : Machine V}
      {o : Verdict × Machine V} {made : List StandIn}
      (hdefinition : env.grammar.rule? id = some definition)
      (hknown : known? env id definition m = none)
      (hbody : Derives env a (.expr definition.body)
        (enterRule id definition (countMiss env definition m)) o made) :
      Derives env (a + 1) (.call id) m
        (body env id definition (memoKey? env id definition m) (fun _ => o)
          (countMiss env definition m)) made

variable {env : Env V} {a : Nat} {task : Task V} {m : Machine V} {o : Verdict × Machine V}
variable {made : List StandIn}

/-! ## Derivations and evaluations -/

namespace Eval

/-- What an evaluation has given may be put in its place. -/
theorem rewinding_eq {eval : Eval V} (h : eval m = o) :
    rewinding eval m = rewinding (fun _ => o) m := by
  subst h
  rfl

/-- Only the outcome matters for giving the commitment back. -/
theorem keepingCommitment_eq {eval : Eval V} (h : eval m = o) :
    keepingCommitment eval m = keepingCommitment (fun _ => o) m := by
  subst h
  rfl

/-- All terminals are matched in one way. -/
theorem expr_of_isTerminal {call : RuleId → Eval V} {e : Expr V} (h : e.isTerminal = true)
    (m : Machine V) : expr env call e m = rewinding (terminal env e) m := by
  cases e with
  | seq | choice | star | plus | optional | notAhead | ahead | rule | label | action => cases h
  | _ => rfl

/-- An item that is no action is matched as an expression. -/
theorem elements_cons_of_isAction_eq_false {call : RuleId → Eval V} {item : Expr V}
    (h : item.isAction = false) (items : List (Expr V)) :
    elements env call (item :: items) = .part (expr env call item) :: elements env call items := by
  cases item with
  | action => cases h
  | _ => rfl

/-- Behind an action that succeeds the sequence goes on. -/
theorem runElements_act_next {start : Nat} {inherited : Bool} {action : Action V}
    {items : List (Element V)} {previous : Span} {synthetic : Bool} {left : Machine V}
    (h : runAction env action previous synthetic m = (.matched, left)) :
    runElements env start inherited (.act action :: items) previous synthetic m =
      runElements env start inherited items previous synthetic left := by
  rw [runElements, h]

/-- An action that does not succeed ends the sequence. -/
theorem runElements_act_last {start : Nat} {inherited : Bool} {action : Action V}
    {items : List (Element V)} {previous : Span} {synthetic : Bool}
    (h : (runAction env action previous synthetic m).1 ≠ .matched) :
    runElements env start inherited (.act action :: items) previous synthetic m =
      runAction env action previous synthetic m := by
  rw [runElements]
  split
  next heval => exact absurd (congrArg Prod.fst heval) h
  next => rfl

/-- A sequence goes on behind a part that matched. -/
theorem runElements_part_next {start : Nat} {inherited : Bool} {eval : Eval V}
    {items : List (Element V)} {previous : Span} {synthetic : Bool} {left : Machine V}
    (h : eval { m with committed := inherited || start < m.offset } = (.matched, left)) :
    runElements env start inherited (.part eval :: items) previous synthetic m =
      runElements env start inherited items ⟨m.offset, left.offset⟩
        (Span.isEmpty ⟨m.offset, left.offset⟩ && m.inserted < left.inserted) left := by
  rw [runElements, h]

/-- A part that does not match ends the sequence. -/
theorem runElements_part_last {start : Nat} {inherited : Bool} {eval : Eval V}
    {items : List (Element V)} {previous : Span} {synthetic : Bool}
    (h : eval { m with committed := inherited || start < m.offset } = o) (hends : o.1 ≠ .matched) :
    runElements env start inherited (.part eval :: items) previous synthetic m = o := by
  rw [runElements, h]
  split
  next => exact absurd rfl hends
  next => rfl

/-- Outside of repairs a choice takes one round. -/
theorem choice_once {items : List (Eval V)} (h : takesTwoRounds env m = false) :
    choice env items m = alternatives items m := by
  rw [choice, if_neg (Bool.eq_false_iff.1 h)]

/-- The first of two rounds is kept, unless it failed and refused a repair. -/
theorem choice_first {items : List (Eval V)} (h : takesTwoRounds env m = true)
    (hround : alternatives items (openRound m) = o)
    (hends : ¬ (o.1 = .mismatched ∧ o.2.wouldInsert = true)) :
    choice env items m = (o.1, keepRound m o.2) := by
  rw [choice, if_pos h, hround]
  rcases o with ⟨_ | _ | _, left⟩
  · rfl
  · exact if_neg fun hnoted => hends ⟨rfl, hnoted⟩
  · rfl

/-- A first round that failed and refused a repair is taken back, and another one follows. -/
theorem choice_second {items : List (Eval V)} {left : Machine V}
    (h : takesTwoRounds env m = true)
    (hround : alternatives items (openRound m) = (.mismatched, left))
    (hnoted : left.wouldInsert = true) :
    choice env items m = alternatives items (undoRound m left) := by
  rw [choice, if_pos h, hround]
  exact if_pos hnoted

/-- Behind an alternative that fails the next one is tried. -/
theorem alternatives_next {eval : Eval V} {items : List (Eval V)} {left : Machine V}
    (hmore : items ≠ []) (h : eval m = (.mismatched, left)) :
    alternatives (eval :: items) m = alternatives items left.backtrack := by
  rw [alternatives, h]
  exact if_neg (by simpa using hmore)

/-- An alternative that does not fail ends the round, and so does the last one. -/
theorem alternatives_last {eval : Eval V} {items : List (Eval V)} (h : eval m = o)
    (hends : o.1 = .mismatched → items = []) : alternatives (eval :: items) m = o := by
  rw [alternatives, h]
  rcases o with ⟨_ | _ | _, left⟩
  · rfl
  · rw [hends rfl]
    rfl
  · rfl

/-- Behind an iteration that consumes something there is another one. -/
theorem many_next {eval : Eval V} {left : Machine V}
    (h : eval { m with committed := false } = (.matched, left))
    (hless : remaining env left < remaining env m) : many env eval m = many env eval left := by
  rw [many, h]
  exact if_pos hless

/-- An iteration that fails or consumes nothing is the last one. -/
theorem many_last {eval : Eval V} (h : eval { m with committed := false } = o)
    (hends : o.1 = .matched → ¬ remaining env o.2 < remaining env m) :
    many env eval m = accepted o := by
  rw [many, h]
  rcases o with ⟨_ | _ | _, left⟩
  · exact if_neg (hends rfl)
  · rfl
  · rfl

/-- Behind a first iteration that consumes something there may be others. -/
theorem plus_next {eval : Eval V} {left : Machine V} (h : eval m = (.matched, left))
    (hless : remaining env left < remaining env m) :
    plus env eval m = keepingCommitment (fun _ => many env eval left) m := by
  refine keepingCommitment_eq ?_
  rw [h]
  exact if_pos hless

/-- A first iteration that fails or consumes nothing is the only one. -/
theorem plus_last {eval : Eval V} (h : eval m = o)
    (hends : o.1 = .matched → ¬ remaining env o.2 < remaining env m) :
    plus env eval m = keepingCommitment (fun _ => o) m := by
  refine keepingCommitment_eq ?_
  rw [h]
  rcases o with ⟨_ | _ | _, left⟩
  · exact if_neg (hends rfl)
  · rfl
  · rfl

/-- A rule that is known not to match is not evaluated. -/
theorem invoke_hit {id : RuleId} {definition : Rule V} {refused : Bool}
    (hdefinition : env.grammar.rule? id = some definition)
    (hknown : known? env id definition m = some refused) (a : Nat) :
    invoke env (a + 1) id m = (.mismatched, knownMismatch env id refused m) := by
  rw [invoke_succ env a hdefinition, rule_eq, hknown]

/-- A rule of which nothing is known has its body matched, with one invocation less to be allowed.
-/
theorem invoke_body {id : RuleId} {definition : Rule V}
    (hdefinition : env.grammar.rule? id = some definition)
    (hknown : known? env id definition m = none) (a : Nat) :
    invoke env (a + 1) id m =
      body env id definition (memoKey? env id definition m)
        (expr env (invoke env a) definition.body) (countMiss env definition m) := by
  rw [invoke_succ env a hdefinition, rule_eq, hknown]

end Eval

/-- What is derived is what the evaluation gives. -/
theorem Derives.run_eq (h : Derives env a task m o made) : task.run env a m = o := by
  induction h with
  | terminal hterminal => exact Eval.expr_of_isTerminal hterminal _
  | action => rfl
  | seq hitems ih =>
      subst ih
      rfl
  | done => rfl
  | act_next hact hrest ih => exact (Eval.runElements_act_next hact).trans ih
  | act_last hends => exact Eval.runElements_act_last hends
  | part_next hitem hpart hrest ihpart ihrest =>
      rw [Task.run, Eval.elements_cons_of_isAction_eq_false hitem]
      exact (Eval.runElements_part_next ihpart).trans ihrest
  | part_last hitem hpart hends ih =>
      rw [Task.run, Eval.elements_cons_of_isAction_eq_false hitem]
      exact Eval.runElements_part_last ih hends
  | choice_once honce hround ih =>
      exact Eval.rewinding_eq ((Eval.choice_once honce).trans ih)
  | choice_first htwo hround hends ih =>
      exact Eval.rewinding_eq (Eval.choice_first htwo ih hends)
  | choice_second htwo hround hnoted hagain ihround ihagain =>
      exact Eval.rewinding_eq ((Eval.choice_second htwo ihround hnoted).trans ihagain)
  | no_alternative => rfl
  | alternative_next hmore hfirst hrest ihfirst ihrest =>
      refine (Eval.alternatives_next ?_ ihfirst).trans ihrest
      simpa using hmore
  | alternative_last hends hfirst ih =>
      refine Eval.alternatives_last ih fun hmismatched => ?_
      rw [hends hmismatched]
      rfl
  | star hmany ih =>
      subst ih
      rfl
  | many_next hfirst hless hrest ihfirst ihrest =>
      exact (Eval.many_next ihfirst hless).trans ihrest
  | many_last hfirst hends ih => exact Eval.many_last ih hends
  | plus_next hfirst hless hrest ihfirst ihrest =>
      subst ihrest
      exact Eval.rewinding_eq (Eval.plus_next ihfirst hless)
  | plus_last hfirst hends ih => exact Eval.rewinding_eq (Eval.plus_last ih hends)
  | optional hbody ih | notAhead hbody ih | ahead hbody ih | label hbody ih | rule hcall ih =>
      subst ih
      rfl
  | unknown hnone => exact congrFun (Eval.invoke_unknown env _ hnone) _
  | limit hdefinition => exact Eval.invoke_zero hdefinition
  | hit hdefinition hknown => exact Eval.invoke_hit hdefinition hknown _
  | body hdefinition hknown hbody ih =>
      subst ih
      exact Eval.invoke_body hdefinition hknown _

/-! ## Every evaluation has a derivation -/

/-- The items of a sequence have a derivation if each part has one, from every machine. -/
theorem exists_derives_items {parts : List (Expr V)}
    (hparts : ∀ part ∈ parts, part.isAction = false → ∀ m, ∃ o made,
      Derives env a (.expr part) m o made)
    (start : Nat) (inherited : Bool) (previous : Span) (synthetic : Bool) (m : Machine V) :
    ∃ o made, Derives env a (.items start inherited parts previous synthetic) m o made := by
  induction parts generalizing previous synthetic m with
  | nil => exact ⟨_, _, .done⟩
  | cons part parts ih =>
      have ih := ih fun part hpart => hparts part (List.mem_cons_of_mem _ hpart)
      by_cases hpart : part.isAction = true
      · cases part with
        | action action =>
            by_cases hends : (Eval.runAction env action previous synthetic m).1 = .matched
            · rcases ih previous synthetic (Eval.runAction env action previous synthetic m).2
                with ⟨o, made, hrest⟩
              exact ⟨o, made, .act_next (Prod.ext hends rfl) hrest⟩
            · exact ⟨_, _, .act_last hends⟩
        | _ => cases hpart
      · rw [Bool.not_eq_true] at hpart
        rcases hparts part List.mem_cons_self hpart
          { m with committed := inherited || start < m.offset } with ⟨⟨verdict, left⟩, made, hfirst⟩
        cases verdict with
        | matched =>
            rcases ih ⟨m.offset, left.offset⟩
              (Span.isEmpty ⟨m.offset, left.offset⟩ && m.inserted < left.inserted) left
              with ⟨o, later, hrest⟩
            exact ⟨o, _, .part_next hpart hfirst hrest⟩
        | mismatched => exact ⟨_, _, .part_last hpart hfirst nofun⟩
        | aborted error => exact ⟨_, _, .part_last hpart hfirst nofun⟩

/-- Alternatives have a derivation if each of them has one. -/
theorem exists_derives_alternatives {parts : List (Expr V)}
    (hparts : ∀ part ∈ parts, ∀ m, ∃ o made, Derives env a (.expr part) m o made)
    (m : Machine V) : ∃ o made, Derives env a (.alternatives parts) m o made := by
  induction parts generalizing m with
  | nil => exact ⟨_, _, .no_alternative⟩
  | cons part parts ih =>
      rcases hparts part List.mem_cons_self m with ⟨⟨verdict, left⟩, made, hfirst⟩
      have ih := ih fun part hpart => hparts part (List.mem_cons_of_mem _ hpart)
      by_cases hmore : parts = []
      · exact ⟨_, _, .alternative_last (fun _ => hmore) hfirst⟩
      · cases verdict with
        | matched => exact ⟨_, _, .alternative_last (by simp) hfirst⟩
        | mismatched =>
            rcases ih left.backtrack with ⟨o, later, hrest⟩
            exact ⟨o, _, .alternative_next hmore hfirst hrest⟩
        | aborted error => exact ⟨_, _, .alternative_last (by simp) hfirst⟩

/-- A choice has a derivation, however many rounds it takes. -/
theorem exists_derives_choice {parts : List (Expr V)}
    (hparts : ∀ part ∈ parts, ∀ m, ∃ o made, Derives env a (.expr part) m o made)
    (m : Machine V) : ∃ o made, Derives env a (.expr (.choice parts)) m o made := by
  have hrounds := exists_derives_alternatives hparts
  by_cases htwo : Eval.takesTwoRounds env m = true
  · rcases hrounds (Eval.openRound m) with ⟨⟨verdict, left⟩, made, hround⟩
    by_cases hends : verdict = .mismatched ∧ left.wouldInsert = true
    · rcases hends with ⟨rfl, hnoted⟩
      rcases hrounds (Eval.undoRound m left) with ⟨o, later, hagain⟩
      exact ⟨_, _, .choice_second htwo hround hnoted hagain⟩
    · exact ⟨_, _, .choice_first htwo hround hends⟩
  · rcases hrounds m with ⟨o, made, hround⟩
    exact ⟨_, _, .choice_once (Bool.eq_false_iff.2 htwo) hround⟩

/-- Iterations have a derivation; they end, since each but the last leaves fewer bytes. -/
theorem exists_derives_many {body : Expr V}
    (hbody : ∀ m, ∃ o made, Derives env a (.expr body) m o made) (m : Machine V) :
    ∃ o made, Derives env a (.many body) m o made := by
  -- As for the loop itself, the measure is the number of bytes left.
  induction hbytes : Eval.remaining env m using Nat.strongRecOn generalizing m with
  | _ bytes ih =>
      rcases hbody { m with committed := false } with ⟨⟨verdict, left⟩, made, hfirst⟩
      by_cases hless : verdict = .matched ∧ Eval.remaining env left < Eval.remaining env m
      · rcases hless with ⟨rfl, hless⟩
        rcases ih _ (hbytes ▸ hless) left rfl with ⟨o, later, hrest⟩
        exact ⟨o, _, .many_next hfirst hless hrest⟩
      · exact ⟨_, _, .many_last hfirst fun hmatched hbytes => hless ⟨hmatched, hbytes⟩⟩

/-- A first iteration and those behind it have a derivation. -/
theorem exists_derives_plus {body : Expr V}
    (hbody : ∀ m, ∃ o made, Derives env a (.expr body) m o made) (m : Machine V) :
    ∃ o made, Derives env a (.expr (.plus body)) m o made := by
  rcases hbody m with ⟨⟨verdict, left⟩, made, hfirst⟩
  by_cases hless : verdict = .matched ∧ Eval.remaining env left < Eval.remaining env m
  · rcases hless with ⟨rfl, hless⟩
    rcases exists_derives_many hbody left with ⟨o, later, hrest⟩
    exact ⟨_, _, .plus_next hfirst hless hrest⟩
  · exact ⟨_, _, .plus_last hfirst fun hmatched hbytes => hless ⟨hmatched, hbytes⟩⟩

/-- An expression has a derivation if the rules it calls have. -/
theorem exists_derives_expr (hcall : ∀ id m, ∃ o made, Derives env a (.call id) m o made)
    (e : Expr V) (m : Machine V) : ∃ o made, Derives env a (.expr e) m o made := by
  induction e using Expr.induction_children generalizing m with
  | step e ih =>
      cases e with
      | seq items =>
          rcases exists_derives_items (fun item hitem _ => ih item hitem) m.offset m.committed
            (Span.emptyAt m.offset) false m with ⟨o, made, hitems⟩
          exact ⟨_, _, .seq hitems⟩
      | choice items => exact exists_derives_choice ih m
      | star body =>
          rcases exists_derives_many (ih body List.mem_cons_self) m with ⟨o, made, hmany⟩
          exact ⟨_, _, .star hmany⟩
      | plus body => exact exists_derives_plus (ih body List.mem_cons_self) m
      | optional body =>
          rcases ih body List.mem_cons_self { m with committed := false } with ⟨o, made, hbody⟩
          exact ⟨_, _, .optional hbody⟩
      | notAhead body =>
          rcases ih body List.mem_cons_self (Eval.openProbe m) with ⟨o, made, hbody⟩
          exact ⟨_, _, .notAhead hbody⟩
      | ahead body =>
          rcases ih body List.mem_cons_self (Eval.openProbe m) with ⟨o, made, hbody⟩
          exact ⟨_, _, .ahead hbody⟩
      | rule id =>
          rcases hcall id m with ⟨o, made, hcall⟩
          exact ⟨_, _, .rule hcall⟩
      | label name body =>
          rcases ih body List.mem_cons_self (Eval.openLabel name m) with ⟨o, made, hbody⟩
          exact ⟨_, _, .label hbody⟩
      | action action => exact ⟨_, _, .action⟩
      | _ => exact ⟨_, _, .terminal rfl⟩

/-- An invocation has a derivation, by induction on how many may be nested. -/
theorem exists_derives_call (a : Nat) (id : RuleId) (m : Machine V) :
    ∃ o made, Derives env a (.call id) m o made := by
  induction a generalizing id m with
  | zero =>
      cases hdefinition : env.grammar.rule? id with
      | none => exact ⟨_, _, .unknown hdefinition⟩
      | some definition => exact ⟨_, _, .limit hdefinition⟩
  | succ a ih =>
      cases hdefinition : env.grammar.rule? id with
      | none => exact ⟨_, _, .unknown hdefinition⟩
      | some definition =>
          cases hknown : Eval.known? env id definition m with
          | some refused => exact ⟨_, _, .hit hdefinition hknown⟩
          | none =>
              rcases exists_derives_expr ih definition.body
                (Eval.enterRule id definition (Eval.countMiss env definition m))
                with ⟨o, made, hbody⟩
              exact ⟨_, _, .body hdefinition hknown hbody⟩

/-- Every evaluation has a derivation. -/
theorem exists_derives (env : Env V) (a : Nat) (task : Task V) (m : Machine V) :
    ∃ made, Derives env a task m (task.run env a m) made := by
  have hexpr : ∀ e m, ∃ o made, Derives env a (.expr e) m o made :=
    exists_derives_expr (exists_derives_call a)
  have hsome : ∃ o made, Derives env a task m o made := by
    cases task with
    | expr e => exact hexpr e m
    | items start inherited parts previous synthetic =>
        exact exists_derives_items (fun part _ _ => hexpr part) start inherited previous synthetic m
    | alternatives parts => exact exists_derives_alternatives (fun part _ => hexpr part) m
    | many body => exact exists_derives_many (hexpr body) m
    | call id => exact exists_derives_call a id m
  rcases hsome with ⟨o, made, hmade⟩
  exact ⟨made, hmade.run_eq ▸ hmade⟩

/-! ## What the ways of combining change -/

namespace Eval

/-- Going back does not change the verdict. -/
@[simp] theorem fst_rewinding (eval : Eval V) (m : Machine V) :
    (rewinding eval m).1 = (eval m).1 := by
  unfold rewinding
  split
  next heval => rw [heval]
  next => rfl

/-- There is no going back after a match. -/
theorem rewinding_of_matched {eval : Eval V} (h : (eval m).1 = .matched) :
    rewinding eval m = eval m := by
  unfold rewinding
  split
  next heval =>
      rw [heval] at h
      cases h
  next => rfl

/-- Going back changes the reading head and the nodes only. -/
theorem exists_snd_rewinding (eval : Eval V) (m : Machine V) :
    ∃ cursor nodes,
      (rewinding eval m).2 = { (eval m).2 with cursor := cursor, nodes := nodes } := by
  unfold rewinding
  generalize eval m = o
  rcases o with ⟨_ | _ | _, left⟩
  · exact ⟨left.cursor, left.nodes, rfl⟩
  · exact ⟨m.cursor, m.nodes, rfl⟩
  · exact ⟨left.cursor, left.nodes, rfl⟩

/-- What has matched has not gone back. -/
theorem eq_of_rewinding_matched {eval : Eval V} (h : (rewinding eval m).1 = .matched) :
    rewinding eval m = eval m :=
  rewinding_of_matched (fst_rewinding eval m ▸ h)

/-- A terminal changes the reading head and what is recorded. -/
theorem exists_snd_terminal (env : Env V) (e : Expr V) (m : Machine V) :
    ∃ cursor frontier wouldInsert gaps stats events, (terminal env e m).2 =
      { m with
        cursor := cursor
        frontier := frontier
        wouldInsert := wouldInsert
        gaps := gaps
        stats := stats
        events := events } := by
  unfold terminal
  split
  next => exact ⟨_, _, _, _, _, _, rfl⟩
  next =>
      unfold missing
      split
      next =>
          dsimp only
          rw [Machine.recordFailure_eq]
          exact ⟨_, _, _, _, _, _, rfl⟩
      next errorOffset hpass =>
          split
          next =>
              split
              next => exact ⟨_, _, _, _, _, _, rfl⟩
              next => exact ⟨_, _, _, _, _, _, rfl⟩
          next => exact ⟨_, _, _, _, _, _, rfl⟩

/-- Giving the commitment back does not change the verdict. -/
@[simp] theorem fst_keepingCommitment (eval : Eval V) (m : Machine V) :
    (keepingCommitment eval m).1 = (eval m).1 :=
  rfl

/-- It changes the commitment only. -/
@[simp] theorem snd_keepingCommitment (eval : Eval V) (m : Machine V) :
    (keepingCommitment eval m).2 = { (eval m).2 with committed := m.committed } :=
  rfl

/-- Accepting a mismatch changes nothing in the machine. -/
@[simp] theorem snd_accepted (o : Verdict × Machine V) : (accepted o).2 = o.2 := by
  rcases o with ⟨_ | _ | _, left⟩ <;> rfl

/-- An error is not accepted. -/
@[simp] theorem limited_accepted (o : Verdict × Machine V) :
    (accepted o).1.limited = o.1.limited := by
  rcases o with ⟨_ | _ | _, left⟩ <;> rfl

/-- An error is not turned around either. -/
@[simp] theorem limited_aheadVerdict (expectMatch : Bool) (verdict : Verdict) :
    (aheadVerdict expectMatch verdict).limited = verdict.limited := by
  cases verdict <;> cases expectMatch <;> rfl

/-- An option accepts the mismatch of its body. -/
theorem optional_eq (eval : Eval V) :
    optional eval = keepingCommitment fun m => accepted (eval { m with committed := false }) := by
  refine congrArg keepingCommitment (funext fun m => ?_)
  generalize eval { m with committed := false } = o
  rcases o with ⟨_ | _ | _, left⟩ <;> rfl

@[simp] theorem fst_ahead (expectMatch : Bool) (eval : Eval V) (m : Machine V) :
    (ahead expectMatch eval m).1 = aheadVerdict expectMatch (eval (openProbe m)).1 :=
  rfl

/-- A lookahead leaves the machine with its probe closed. -/
@[simp] theorem snd_ahead (expectMatch : Bool) (eval : Eval V) (m : Machine V) :
    (ahead expectMatch eval m).2 = closeProbe m (eval (openProbe m)).2 :=
  rfl

/-- A label has the verdict of what it stands around. -/
@[simp] theorem fst_labeled (name : String) (eval : Eval V) (m : Machine V) :
    (labeled env name eval m).1 = (eval (openLabel name m)).1 := by
  rw [labeled_eq]
  split
  next heval => rw [heval]
  next heval => rw [heval]
  next heval => rw [heval]

/-- Closing a label changes the nodes and the frontier besides. -/
theorem exists_snd_labeled (env : Env V) (name : String) (eval : Eval V) (m : Machine V) :
    ∃ nodes frontier, (labeled env name eval m).2 =
      { closeLabel (eval (openLabel name m)).2 with nodes := nodes, frontier := frontier } := by
  rw [labeled_eq]
  generalize eval (openLabel name m) = o
  rcases o with ⟨_ | _ | _, left⟩
  · exact ⟨_, _, rfl⟩
  · exact ⟨_, _, noteFailure_eq env m (closeLabel left) (.label name)⟩
  · exact ⟨_, _, rfl⟩

/-- A rule has the verdict of its body. -/
@[simp] theorem fst_body (id : RuleId) (definition : Rule V) (key? : Option MemoKey)
    (eval : Eval V) (m : Machine V) :
    (body env id definition key? eval m).1 = (eval (enterRule id definition m)).1 := by
  unfold body
  generalize eval (enterRule id definition m) = o
  rcases o with ⟨_ | _ | _, left⟩ <;> rfl

/-- Closing a rule invocation changes the nodes and what is recorded besides. -/
theorem exists_snd_body (env : Env V) (id : RuleId) (definition : Rule V) (key? : Option MemoKey)
    (eval : Eval V) (m : Machine V) :
    ∃ nodes frontier memo events, (body env id definition key? eval m).2 =
      { leaveRule definition m (eval (enterRule id definition m)).2 with
        nodes := nodes, frontier := frontier, memo := memo, events := events } := by
  unfold body
  generalize eval (enterRule id definition m) = o
  rcases o with ⟨_ | _ | _, left⟩
  · dsimp only
    rw [contribute_eq]
    exact ⟨_, _, _, _, rfl⟩
  · dsimp only
    rw [Machine.recordNamed_eq, Machine.remember_eq]
    exact ⟨_, _, _, _, rfl⟩
  · exact ⟨_, _, _, _, rfl⟩

/-- An action changes the stack, variables and counts. -/
theorem exists_snd_runAction (env : Env V) (action : Action V) (span : Span)
    (synthetic : Bool) (m : Machine V) :
    ∃ stack vars stats, (runAction env action span synthetic m).2 =
      { m with stack := stack, vars := vars, stats := stats } := by
  unfold runAction
  dsimp only
  generalize (action _).run ⟨m.stack, m.vars⟩ = result
  rcases result with ⟨error | _ | _, space⟩
  · exact ⟨_, _, _, rfl⟩
  · exact ⟨_, _, _, rfl⟩
  · exact ⟨_, _, _, rfl⟩

/-- An action that accepts keeps the frame. -/
theorem frame_runAction {action : Action V} {span : Span} {synthetic : Bool}
    {left : Machine V} (hm : m.Valid env)
    (h : runAction env action span synthetic m = (.matched, left)) : m.Frame env left := by
  have hframe : Leaves (m.Frame env) (runAction env action span synthetic m) :=
    framed_runAction action span synthetic m hm
  rwa [h] at hframe

/-- A known mismatch changes what is recorded, and the note of a refused repair. -/
theorem exists_knownMismatch (env : Env V) (id : RuleId) (refused : Bool) (m : Machine V) :
    ∃ frontier stats events, knownMismatch env id refused m =
      { m with
        wouldInsert := m.wouldInsert || refused
        frontier := frontier
        stats := stats
        events := events } := by
  unfold knownMismatch
  dsimp only
  rw [Machine.recordNamed_eq]
  exact ⟨_, _, _, rfl⟩

end Eval

/-! ## Gaps -/

/-- What was recorded of a repair does not tell what it was made inside of. -/
@[simp] theorem StandIn.gap_inside (surrounding : Surrounding) (standIn : StandIn) :
    (standIn.inside surrounding).gap = standIn.gap :=
  rfl

/-- Nor does it tell whether it was gone back on. -/
@[simp] theorem StandIn.gap_drop (standIn : StandIn) : standIn.drop.gap = standIn.gap :=
  rfl

/-- The gaps of a sequence stay recorded when its parts are gone back on. -/
@[simp] theorem map_gap_settle (verdict : Verdict) (made : List StandIn) :
    (verdict.settle made).map StandIn.gap = made.map StandIn.gap := by
  cases verdict <;> simp [Verdict.settle, Function.comp_def]

@[simp] theorem map_gap_inside (surrounding : Surrounding) (made : List StandIn) :
    (made.map (.inside surrounding)).map StandIn.gap = made.map StandIn.gap := by
  simp [Function.comp_def]

@[simp] theorem map_gap_probed (made : List StandIn) :
    (made.map .probed).map StandIn.gap = made.map StandIn.gap := by
  simp [StandIn.probed, Function.comp_def]

/-- A terminal is matched as it is, or missing with nothing made, or stood in for. -/
theorem Eval.gaps_terminal (e : Expr V) (m : Machine V) :
    (Eval.terminal env e m).2.gaps = ((standIns env e m).map StandIn.gap).reverse ++ m.gaps := by
  unfold Eval.terminal standIns
  split
  next cursor hconsume => simp [hconsume]
  next hconsume =>
      unfold missing
      rw [hconsume]
      split
      next hpass =>
          rw [hpass, Machine.recordFailure_eq]
          rfl
      next errorOffset hpass =>
          rw [hpass]
          dsimp only
          by_cases hstand : mayStandIn env errorOffset e m = true
          · by_cases hswitch : m.mayInsert = true
            · simp [hstand, hswitch, Machine.insert]
            · simp [hstand, hswitch]
          · simp [hstand]

/-- Going back after a mismatch takes no gaps back. -/
@[simp] theorem Eval.gaps_rewinding (eval : Eval V) (m : Machine V) :
    (rewinding eval m).2.gaps = (eval m).2.gaps := by
  rcases exists_snd_rewinding eval m with ⟨_, _, hleft⟩
  rw [hleft]

/-- The gaps of a machine are the repairs that were made. -/
theorem Derives.gaps_eq (h : Derives env a task m o made) :
    o.2.gaps = (made.map StandIn.gap).reverse ++ m.gaps := by
  induction h with
  | @terminal a e m hterminal =>
      rw [Eval.gaps_rewinding]
      exact Eval.gaps_terminal e m
  | @action a action m =>
      rcases Eval.exists_snd_runAction env action (Span.emptyAt m.offset) false m
        with ⟨_, _, _, hleft⟩
      rw [Eval.gaps_rewinding, hleft]
      rfl
  | seq hitems ih =>
      rw [Eval.gaps_rewinding, map_gap_settle]
      exact ih
  | done | no_alternative | unknown | limit => rfl
  | @act_next a start inherited action items previous synthetic m left o made hact hrest ih =>
      rcases Eval.exists_snd_runAction env action previous synthetic m
        with ⟨_, _, _, hleft⟩
      rw [hact] at hleft
      rw [ih, show left = _ from hleft]
  | @act_last a start inherited action items previous synthetic m hends =>
      rcases Eval.exists_snd_runAction env action previous synthetic m
        with ⟨_, _, _, hleft⟩
      rw [hleft]
      rfl
  | part_next hitem hpart hrest ihpart ihrest =>
      rw [ihrest, show _ = _ from ihpart]
      simp
  | part_last hitem hpart hends ih => exact ih
  | choice_once honce hround ih | choice_first htwo hround hends ih =>
      rw [Eval.gaps_rewinding]
      exact ih
  | @choice_second a items m left o made later htwo hround hnoted hagain ihround ihagain =>
      have hundo : (Eval.undoRound m left).gaps = left.gaps := rfl
      have hopen : (Eval.openRound m).gaps = m.gaps := rfl
      rw [Eval.gaps_rewinding, ihagain, hundo, show left.gaps = _ from ihround, hopen]
      simp
  | @alternative_next a item items m left o made later hmore hfirst hrest ihfirst ihrest =>
      have hback : left.backtrack.gaps = left.gaps := rfl
      rw [ihrest, hback, show left.gaps = _ from ihfirst]
      simp
  | alternative_last hends hfirst ih => exact ih
  | star hmany ih =>
      rw [Eval.gaps_rewinding]
      exact ih
  | many_next hfirst hless hrest ihfirst ihrest =>
      rw [ihrest, show _ = _ from ihfirst]
      simp
  | many_last hfirst hends ih =>
      rw [Eval.snd_accepted, map_gap_inside]
      exact ih
  | plus_next hfirst hless hrest ihfirst ihrest =>
      rw [Eval.gaps_rewinding, Eval.snd_keepingCommitment, ihrest, show _ = _ from ihfirst]
      simp
  | plus_last hfirst hends ih =>
      rw [Eval.gaps_rewinding]
      exact ih
  | optional hbody ih =>
      rw [Eval.gaps_rewinding, Eval.optional_eq, Eval.snd_keepingCommitment, Eval.snd_accepted,
        map_gap_inside]
      exact ih
  | notAhead hbody ih | ahead hbody ih =>
      rw [Eval.gaps_rewinding, Eval.snd_ahead, map_gap_probed]
      exact ih
  | @label a name body m o made hbody ih =>
      rcases Eval.exists_snd_labeled env name (fun _ => o) m with ⟨_, _, hleft⟩
      rw [Eval.gaps_rewinding, hleft]
      exact ih
  | rule hcall ih =>
      rw [Eval.gaps_rewinding]
      exact ih
  | @hit a id definition refused m hdefinition hknown =>
      rcases Eval.exists_knownMismatch env id refused m with ⟨_, _, _, hleft⟩
      rw [hleft]
      rfl
  | @body a id definition m o made hdefinition hknown hbody ih =>
      rcases Eval.exists_snd_body env id definition (Eval.memoKey? env id definition m)
        (fun _ => o) (Eval.countMiss env definition m) with ⟨_, _, _, _, hleft⟩
      rw [hleft]
      rw [Eval.countMiss_eq] at ih
      exact ih

/-! ## Frames and limits -/

/-- What a task leaves as it was; sequences and repetitions give the commitment back
only when all of them is done. -/
def Task.Frame (env : Env V) (m left : Machine V) : Task V → Prop
  | .items .. | .many _ => m.Frame env { left with committed := m.committed }
  | .expr _ | .alternatives _ | .call _ => m.Frame env left

/-- Whatever is left in the frame of a task is valid. -/
theorem Task.Frame.valid {left : Machine V} (h : task.Frame env m left) : left.Valid env := by
  cases task with
  | items | many =>
      have hframe : m.Frame env { left with committed := m.committed } := h
      exact ⟨hframe.valid.within, hframe.valid.vars⟩
  | expr | alternatives | call => exact Machine.Frame.valid h

/-- Unless it is aborted, an evaluation keeps the frame. -/
theorem Task.framed (hm : m.Valid env) (h : task.run env a m = o) :
    Eval.Leaves (fun left => task.Frame env m left) o := by
  have hcall : ∀ id, Eval.Framed env (Eval.invoke env a id) := Eval.framed_invoke a
  have hexpr := Eval.framed_expr hcall
  rw [← h]
  cases task with
  | expr e => exact hexpr e m hm
  | items start inherited parts previous synthetic =>
      refine Eval.framed_runElements ?_ start inherited previous synthetic hm
      rw [Eval.elements_eq_map]
      refine List.forall_mem_map.2 fun part _ => ?_
      cases part with
      | action action => trivial
      | _ => exact hexpr _
  | alternatives parts =>
      refine Eval.framed_alternatives ?_ m hm
      rw [Eval.evalAll_eq_map]
      exact List.forall_mem_map.2 fun part _ => hexpr part
  | many body => exact Eval.framed_many (hexpr body) hm
  | call id => exact hcall id m hm

/-- Unless it is aborted, an evaluation leaves a machine behind that is in order. -/
theorem Task.valid_of_run {verdict : Verdict} {left : Machine V} (hm : m.Valid env)
    (h : task.run env a m = (verdict, left)) (hends : ∀ error, verdict ≠ .aborted error) :
    left.Valid env := by
  have hframed := Task.framed hm h
  cases verdict with
  | matched | mismatched => exact Task.Frame.valid hframed
  | aborted error => exact absurd rfl (hends error)

/-- What an expression leaves as it was, if it did not end the parse. -/
theorem Task.framed_expr {e : Expr V} (hm : m.Valid env) (h : (Task.expr e).run env a m = o) :
    Eval.Leaves (m.Frame env) o :=
  Task.framed hm h

/-- A derivation keeps the frame. -/
theorem Derives.framed (h : Derives env a task m o made) (hm : m.Valid env) :
    Eval.Leaves (fun left => task.Frame env m left) o :=
  Task.framed hm h.run_eq

/-- A derivation that matches does not go back. -/
theorem Derives.offset_le (h : Derives env a task m o made) (hm : m.Valid env)
    (hmatched : o.1 = .matched) : m.offset ≤ o.2.offset := by
  have hframe := h.framed hm
  rcases o with ⟨_ | _ | _, last⟩
  · have hframe : task.Frame env m last := hframe
    cases task with
    | items | many =>
        have hframe : m.Frame env { last with committed := m.committed } := hframe
        exact hframe.offset_le
    | expr | alternatives | call =>
        have hframe : m.Frame env last := hframe
        exact hframe.offset_le
  · cases hmatched
  · cases hmatched

/-- Unless the limit of nested invocations was run into, a higher one makes no
difference. -/
theorem Derives.raise (h : Derives env a task m o made) (hlimited : o.1.limited = false)
    {b : Nat} (hle : a ≤ b) : Derives env b task m o made := by
  induction h generalizing b with
  | terminal hterminal => exact .terminal hterminal
  | action => exact .action
  | seq hitems ih => exact .seq (ih (by simpa using hlimited) hle)
  | done => exact .done
  | act_next hact hrest ih => exact .act_next hact (ih hlimited hle)
  | act_last hends => exact .act_last hends
  | part_next hitem hpart hrest ihpart ihrest =>
      exact .part_next hitem (ihpart rfl hle) (ihrest hlimited hle)
  | part_last hitem hpart hends ih => exact .part_last hitem (ih hlimited hle) hends
  | choice_once honce hround ih => exact .choice_once honce (ih (by simpa using hlimited) hle)
  | choice_first htwo hround hends ih =>
      exact .choice_first htwo (ih (by simpa using hlimited) hle) hends
  | choice_second htwo hround hnoted hagain ihround ihagain =>
      exact .choice_second htwo (ihround rfl hle) hnoted (ihagain (by simpa using hlimited) hle)
  | no_alternative => exact .no_alternative
  | alternative_next hmore hfirst hrest ihfirst ihrest =>
      exact .alternative_next hmore (ihfirst rfl hle) (ihrest hlimited hle)
  | alternative_last hends hfirst ih => exact .alternative_last hends (ih hlimited hle)
  | star hmany ih => exact .star (ih (by simpa using hlimited) hle)
  | many_next hfirst hless hrest ihfirst ihrest =>
      exact .many_next (ihfirst rfl hle) hless (ihrest hlimited hle)
  | many_last hfirst hends ih =>
      exact .many_last (ih (by simpa using hlimited) hle) hends
  | plus_next hfirst hless hrest ihfirst ihrest =>
      exact .plus_next (ihfirst rfl hle) hless (ihrest (by simpa using hlimited) hle)
  | plus_last hfirst hends ih => exact .plus_last (ih (by simpa using hlimited) hle) hends
  | optional hbody ih =>
      rw [Eval.optional_eq] at hlimited
      exact .optional (ih (by simpa using hlimited) hle)
  | notAhead hbody ih => exact .notAhead (ih (by simpa using hlimited) hle)
  | ahead hbody ih => exact .ahead (ih (by simpa using hlimited) hle)
  | label hbody ih => exact .label (ih (by simpa using hlimited) hle)
  | rule hcall ih => exact .rule (ih (by simpa using hlimited) hle)
  | unknown hnone => exact .unknown hnone
  | limit hdefinition => cases hlimited
  | hit hdefinition hknown =>
      cases b with
      | zero => cases hle
      | succ b => exact .hit hdefinition hknown
  | body hdefinition hknown hbody ih =>
      cases b with
      | zero => cases hle
      | succ b =>
          exact .body hdefinition hknown
            (ih (by simpa using hlimited) (Nat.le_of_succ_le_succ hle))

/-! ## Passes -/

/-- The machine that a pass starts from. -/
def passStart (env : Env V) : Machine V :=
  match env.pass with
  | .first => Machine.start env
  | .repair errorOffset => (Machine.start env).emit (.recoveryPass errorOffset)

/-- A pass invokes its root there. -/
theorem runPass_eq (env : Env V) (root : RuleId) :
    runPass env root = (Task.call root).run env env.settings.maxDepth (passStart env) :=
  rfl

/-- A pass starts like a machine does, but for its first event. -/
theorem passStart_eq (env : Env V) :
    passStart env = { Machine.start env with events := (passStart env).events } := by
  unfold passStart
  split <;> rfl

/-- A pass starts at a valid machine. -/
theorem valid_passStart (env : Env V) : (passStart env).Valid env := by
  rw [passStart_eq]
  exact ⟨(valid_start env).within, (valid_start env).vars⟩

/-- Unless it is aborted, a pass leaves a machine behind that is in order. -/
theorem valid_of_runPass {root : RuleId} {verdict : Verdict} {left : Machine V}
    (h : runPass env root = (verdict, left)) (hends : ∀ error, verdict ≠ .aborted error) :
    left.Valid env := by
  rw [runPass_eq] at h
  exact Task.valid_of_run (valid_passStart env) h hends

/-- The repairs that a pass makes, in the order they are made. -/
def PassMakes (env : Env V) (root : RuleId) (made : List StandIn) : Prop :=
  Derives env env.settings.maxDepth (.call root) (passStart env) (runPass env root) made

/-- Every pass has made some list of repairs. -/
theorem exists_passMakes (env : Env V) (root : RuleId) : ∃ made, PassMakes env root made :=
  exists_derives env env.settings.maxDepth (.call root) (passStart env)

/-- The gaps that a pass leaves are its repairs. -/
theorem PassMakes.gaps_eq {root : RuleId} (h : PassMakes env root made) :
    (runPass env root).2.gaps.reverse = made.map StandIn.gap := by
  have hstart : (passStart env).gaps = [] := by
    rw [passStart_eq]
    rfl
  rw [Derives.gaps_eq h, hstart, List.append_nil, List.reverse_reverse]

end Peg
