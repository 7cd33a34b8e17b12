import Peg.Proofs.Parse.Derivation

/-!
# The commitment is for repairs

An expression is evaluated under a commitment, which says whether its surroundings have
consumed input.  Only repairs ask for it.  So in the first pass, which makes none, an
expression does the same under either commitment, and it leaves the one that it was given.

Lookaheads, options and repetitions start their bodies uncommitted and do not even look at
the commitment that they are given; a sequence makes one of its own for each item, which
depends on the given one.

Main results:

- `Eval.sequence_pair_eq_matched_iff`: how two of these evaluations run in sequence.
- `Eval.indifferent_expr`: in the first pass an expression does the same under either
  commitment if the rules do.
- `Eval.indifferent_invoke`: in the first pass a rule that is invoked does.
-/

namespace Peg

open Text

variable {V : Type}

namespace Machine

variable (env : Env V)

/-- What is noted does not depend on the commitment. -/
theorem recordFailure_recommit (m : Machine V) (committed : Bool) (offset : Nat)
    (expected : Expected V) :
    Machine.recordFailure env { m with committed := committed } offset expected =
      { m.recordFailure env offset expected with committed := committed } := by
  have hrecording : recording env { m with committed := committed } = m.recording env := rfl
  rw [recordFailure, recordFailure, hrecording]
  split <;> rfl

/-- What is noted as failed does not depend on the commitment. -/
theorem recordNamed_recommit (m : Machine V) (committed : Bool) (start : Nat)
    (before : Frontier V) (expected : Expected V) :
    Machine.recordNamed env { m with committed := committed } start before expected =
      { m.recordNamed env start before expected with committed := committed } := by
  have hrecording : recording env { m with committed := committed } = m.recording env := rfl
  rw [recordNamed, recordNamed, hrecording]
  split <;> rfl

theorem inserted_recommit (m : Machine V) (committed : Bool) :
    Machine.inserted { m with committed := committed } = m.inserted :=
  rfl

end Machine

namespace Eval

/-- An evaluation does the same under either commitment, and leaves the one that it was
given. -/
def Indifferent (eval : Eval V) : Prop :=
  ∀ (m : Machine V) (committed : Bool),
    eval { m with committed := committed } =
      ((eval m).1, { (eval m).2 with committed := committed })

/-- An outcome, whatever the commitment that is left. -/
def uncommitted (o : Verdict × Machine V) : Verdict × Machine V :=
  (o.1, { o.2 with committed := false })

variable {env : Env V} {eval : Eval V}

/-- The commitment that was given is the one that is left. -/
theorem Indifferent.committed_eq (h : Indifferent eval) (m : Machine V) :
    (eval m).2.committed = m.committed :=
  congrArg (fun o : Verdict × Machine V => o.2.committed) (h m m.committed)

/-- Going back after a mismatch does not look at the commitment. -/
theorem Indifferent.rewinding (h : Indifferent eval) : Indifferent (rewinding eval) := by
  intro m committed
  unfold Eval.rewinding
  rw [h m committed]
  generalize eval m = o
  rcases o with ⟨_ | _ | _, left⟩ <;> rfl

/-- It is enough to do the same up to the commitment that is left. -/
theorem indifferent_keepingCommitment
    (h : ∀ (m : Machine V) (committed : Bool),
      uncommitted (eval { m with committed := committed }) = uncommitted (eval m)) :
    Indifferent (keepingCommitment eval) := by
  intro m committed
  have hsame := h m committed
  unfold keepingCommitment
  generalize eval { m with committed := committed } = o at hsame ⊢
  generalize eval m = o' at hsame ⊢
  rcases o with ⟨verdict, left⟩
  rcases o' with ⟨verdict', left'⟩
  rcases left with ⟨⟩
  rcases left' with ⟨⟩
  simp_all [uncommitted]

/-! ## Terminals and actions -/

/-- The first pass notes what is missing, whatever the commitment. -/
theorem indifferent_missing (hfirst : env.pass = .first) (e : Expr V) :
    Indifferent (missing env e) := by
  intro m committed
  simp only [missing, hfirst, Machine.recordFailure_recommit]
  rfl

/-- In the first pass a terminal does not look at the commitment, since it is not stood in for. -/
theorem indifferent_terminal (hfirst : env.pass = .first) (e : Expr V) :
    Indifferent (terminal env e) := by
  intro m committed
  unfold terminal
  dsimp only
  split
  next => rfl
  next => exact indifferent_missing hfirst e m committed

/-- An action cannot see the commitment. -/
theorem indifferent_runAction (action : Action V) (span : Span) (synthetic : Bool) :
    Indifferent (runAction env action span synthetic) := by
  intro m committed
  simp only [runAction]
  generalize (action ⟨env.source.text, span, synthetic, env.pass.isRepair⟩).run
    ⟨m.stack, m.vars⟩ = result
  rcases result with ⟨_ | _ | _, space⟩ <;> rfl

/-! ## Sequences -/

/-- The items of a sequence that are expressions do the same under either commitment. -/
def Element.Indifferent : Element V → Prop
  | .act _ => True
  | .part eval => Eval.Indifferent eval

/-- What a sequence hands to an item shows only in the commitment that is left. -/
theorem runElements_part (h : Indifferent eval) (start : Nat) (inherited : Bool)
    (items : List (Element V)) (previous : Span) (synthetic : Bool) (m : Machine V) :
    runElements env start inherited (.part eval :: items) previous synthetic m =
      match eval m with
      | (.matched, left) =>
        runElements env start inherited items ⟨m.offset, left.offset⟩
          (Span.isEmpty ⟨m.offset, left.offset⟩ && m.inserted < left.inserted)
          { left with committed := inherited || start < m.offset }
      | (verdict, left) => (verdict, { left with committed := inherited || start < m.offset }) := by
  rw [runElements, h m]
  generalize eval m = o
  rcases o with ⟨_ | _ | _, left⟩ <;> rfl

/-- The commitment of a sequence reaches its items, which do not care. -/
theorem uncommitted_runElements {items : List (Element V)}
    (hitems : ∀ item ∈ items, item.Indifferent) (start : Nat) (inherited inherited' : Bool)
    (previous : Span) (synthetic : Bool) (m : Machine V) (committed : Bool) :
    uncommitted (runElements env start inherited' items previous synthetic
        { m with committed := committed }) =
      uncommitted (runElements env start inherited items previous synthetic m) := by
  induction items generalizing m inherited inherited' previous synthetic committed with
  | nil => rfl
  | cons item items ih =>
      have ih := ih fun item hitem => hitems item (List.mem_cons_of_mem _ hitem)
      cases item with
      | act action =>
          rw [runElements, runElements, indifferent_runAction action previous synthetic m committed]
          generalize runAction env action previous synthetic m = o
          rcases o with ⟨_ | _ | _, left⟩
          · exact ih inherited inherited' previous synthetic left committed
          · rfl
          · rfl
      | part eval =>
          have hpart : Eval.Indifferent eval := hitems _ List.mem_cons_self
          rw [runElements_part hpart, runElements_part hpart, hpart m committed]
          generalize eval m = o
          rcases o with ⟨_ | _ | _, left⟩
          · exact (ih inherited inherited' _ _ left _).trans
              (ih inherited inherited _ _ left _).symm
          · rfl
          · rfl

/-- A sequence hands its own commitment to its items and gives back the one it was given. -/
theorem indifferent_sequence {items : List (Element V)}
    (hitems : ∀ item ∈ items, item.Indifferent) : Indifferent (sequence env items) :=
  indifferent_keepingCommitment fun m committed =>
    uncommitted_runElements hitems m.offset m.committed committed _ false m committed

/-- In a sequence of two the second one goes on where the first one has left off. -/
theorem sequence_pair_eq_matched_iff {first second : Eval V} (hfirst : Indifferent first)
    (hsecond : Indifferent second) {m left : Machine V} :
    sequence env [.part first, .part second] m = (.matched, left) ↔
      ∃ middle, first m = (.matched, middle) ∧ second middle = (.matched, left) := by
  have hkept := hfirst.committed_eq m
  unfold sequence keepingCommitment
  dsimp only
  rw [runElements_part hfirst]
  generalize first m = o at hkept ⊢
  rcases o with ⟨_ | _ | _, middle⟩
  · have hkept := (hsecond.committed_eq middle).trans hkept
    dsimp only
    rw [runElements_part hsecond, hsecond middle (m.committed || m.offset < m.offset)]
    generalize hlast : second middle = o at hkept ⊢
    rcases o with ⟨_ | _ | _, last⟩
    · change (Verdict.matched, { last with committed := m.committed }) = _ ↔ _
      rw [← hkept]
      constructor
      · intro h
        exact ⟨middle, rfl, hlast.trans h⟩
      · rintro ⟨_, ⟨⟩, h⟩
        exact hlast.symm.trans h
    · simp [hlast]
    · simp [hlast]
  · simp
  · simp

/-! ## Choices -/

/-- Alternatives are indifferent if each of them is. -/
theorem indifferent_alternatives {items : List (Eval V)}
    (hitems : ∀ item ∈ items, Indifferent item) : Indifferent (alternatives items) := by
  induction items with
  | nil => exact fun _ _ => rfl
  | cons item items ih =>
      intro m committed
      have ih := ih fun item hitem => hitems item (List.mem_cons_of_mem _ hitem)
      rw [alternatives, alternatives, hitems item List.mem_cons_self m committed]
      generalize item m = o
      rcases o with ⟨_ | _ | _, left⟩
      · rfl
      · dsimp only
        split
        next => rfl
        next => exact ih left.backtrack committed
      · rfl

/-- The first pass takes one round only. -/
theorem indifferent_choice (hfirst : env.pass = .first) {items : List (Eval V)}
    (hitems : ∀ item ∈ items, Indifferent item) : Indifferent (choice env items) := by
  have honce (m : Machine V) : choice env items m = alternatives items m := by
    simp [choice, takesTwoRounds, hfirst, Pass.isRepair]
  intro m committed
  rw [honce, honce]
  exact indifferent_alternatives hitems m committed

/-! ## Repetitions, options and lookahead -/

theorem remaining_recommit (m : Machine V) (committed : Bool) :
    remaining env { m with committed := committed } = remaining env m :=
  rfl

/-- A loop does not look at the commitment that it is given. -/
theorem many_recommit (eval : Eval V) (m : Machine V) (committed : Bool) :
    many env eval { m with committed := committed } = many env eval m := by
  rw [many, many]
  rfl

/-- A repetition does not even look at the commitment. -/
theorem indifferent_star (eval : Eval V) : Indifferent (star env eval) :=
  indifferent_keepingCommitment fun m committed => by rw [many_recommit]

/-- Nor does a repetition with a first iteration that must match, but for that iteration. -/
theorem Indifferent.plus (h : Indifferent eval) : Indifferent (plus env eval) := by
  refine indifferent_keepingCommitment fun m committed => ?_
  rw [h m committed]
  generalize eval m = o
  rcases o with ⟨_ | _ | _, left⟩
  · dsimp only
    rw [many_recommit, remaining_recommit m committed, remaining_recommit left committed]
    split <;> rfl
  · rfl
  · rfl

/-- An option does not even look at the commitment. -/
theorem indifferent_optional (eval : Eval V) : Indifferent (optional eval) :=
  indifferent_keepingCommitment fun _ _ => rfl

/-- Nor does a lookahead. -/
theorem indifferent_ahead (expectMatch : Bool) (eval : Eval V) :
    Indifferent (ahead expectMatch eval) :=
  fun _ _ => rfl

/-! ## Labels and rules -/

/-- A failed rule or label is noted whatever the commitment. -/
theorem noteFailure_recommit (m left : Machine V) (committed : Bool) (name : Expected V) :
    noteFailure env { m with committed := committed } { left with committed := committed } name =
      { noteFailure env m left name with committed := committed } :=
  Machine.recordNamed_recommit env { left with nodes := m.nodes } committed m.offset m.frontier name

/-- A label is indifferent if what it stands around is. -/
theorem Indifferent.labeled (h : Indifferent eval) (name : String) :
    Indifferent (labeled env name eval) := by
  intro m committed
  have hsame : eval (openLabel name { m with committed := committed }) = _ :=
    h (openLabel name m) committed
  rw [labeled_eq, labeled_eq, hsame]
  generalize eval (openLabel name m) = o
  rcases o with ⟨_ | _ | _, left⟩
  · rfl
  · exact congrArg (Prod.mk _) (noteFailure_recommit m (closeLabel left) committed _)
  · rfl

/-- What is known of a rule does not depend on the commitment in the first pass. -/
theorem memoKey?_recommit (hfirst : env.pass = .first) (id : RuleId) (definition : Rule V)
    (m : Machine V) (committed : Bool) :
    memoKey? env id definition { m with committed := committed } =
      memoKey? env id definition m := by
  simp [memoKey?, Machine.memoContext, hfirst, Pass.isRepair, Machine.offset]

/-- A mismatch is remembered whatever the commitment. -/
theorem remember_recommit (env : Env V) (key? : Option MemoKey) (refused : Bool)
    (m left : Machine V) (committed : Bool) :
    remember env key? refused { m with committed := committed }
        { left with committed := committed } =
      { remember env key? refused m left with committed := committed } := by
  cases key? with
  | none => rfl
  | some key =>
      rw [remember, remember]
      dsimp only
      rw [Machine.inserted_recommit m committed, Machine.inserted_recommit left committed]
      split <;> rfl

/-- The nodes of a rule do not depend on the commitment. -/
theorem contribute_recommit (id : RuleId) (definition : Rule V) (m left : Machine V)
    (committed : Bool) :
    contribute id definition { m with committed := committed }
        { left with committed := committed } =
      { contribute id definition m left with committed := committed } := by
  unfold contribute
  split <;> rfl

/-- A rule is indifferent if its body is. -/
theorem Indifferent.body (h : Indifferent eval) (id : RuleId) (definition : Rule V)
    (key? : Option MemoKey) : Indifferent (body env id definition key? eval) := by
  intro m committed
  have hsame : eval (enterRule id definition { m with committed := committed }) = _ :=
    h (enterRule id definition m) committed
  unfold Eval.body
  rw [hsame]
  generalize eval (enterRule id definition m) = o
  rcases o with ⟨_ | _ | _, inside⟩
  · have hadded := contribute_recommit id definition m (leaveRule definition m inside) committed
    exact congrArg
      (fun left : Machine V => (Verdict.matched, left.emit (.exit id left.offset true))) hadded
  · let back : Machine V := { leaveRule definition m inside with nodes := m.nodes }
    have hremembered := remember_recommit env key? inside.wouldInsert m back committed
    have hnamed := Machine.recordNamed_recommit env
      (remember env key? inside.wouldInsert m back) committed m.offset m.frontier (.rule id)
    rw [← hremembered] at hnamed
    exact congrArg
      (fun left : Machine V => (Verdict.mismatched, left.emit (.exit id left.offset false))) hnamed
  · rfl

theorem countMiss_recommit (definition : Rule V) (m : Machine V) (committed : Bool) :
    countMiss env definition { m with committed := committed } =
      { countMiss env definition m with committed := committed } := by
  unfold countMiss
  split <;> rfl

theorem knownMismatch_recommit (id : RuleId) (refused : Bool) (m : Machine V) (committed : Bool) :
    knownMismatch env id refused { m with committed := committed } =
      { knownMismatch env id refused m with committed := committed } :=
  Machine.recordNamed_recommit env
    { m with
      wouldInsert := m.wouldInsert || refused
      stats := { m.stats with memoHits := m.stats.memoHits + 1 }
      events := .memoHit id m.offset :: m.events }
    committed m.offset m.frontier (.rule id)

/-- A rule is indifferent whether its mismatch is known or not: in the first pass the commitment
is no part of what is remembered. -/
theorem Indifferent.rule (hfirst : env.pass = .first) (h : Indifferent eval) (id : RuleId)
    (definition : Rule V) : Indifferent (rule env id definition eval) := by
  intro m committed
  rw [rule_eq, rule_eq, known?, known?, memoKey?_recommit hfirst]
  dsimp only
  cases (memoKey? env id definition m).bind m.memo.find? with
  | some refused => exact congrArg (Prod.mk _) (knownMismatch_recommit id refused m committed)
  | none =>
      dsimp only
      rw [countMiss_recommit]
      exact h.body id definition _ (countMiss env definition m) committed

/-! ## Expressions -/

/-- In the first pass an expression does the same under either commitment if the rules do. -/
theorem indifferent_expr (hfirst : env.pass = .first) {call : RuleId → Eval V}
    (hcall : ∀ id, Indifferent (call id)) (e : Expr V) : Indifferent (expr env call e) := by
  induction e using Expr.induction_children with
  | step e ih =>
      cases e with
      | seq items =>
          have hitems : ∀ item ∈ elements env call items, item.Indifferent := by
            rw [elements_eq_map]
            refine List.forall_mem_map.2 fun item hitem => ?_
            cases item with
            | action action => trivial
            | _ => exact ih _ hitem
          exact (indifferent_sequence hitems).rewinding
      | choice items =>
          have hitems : ∀ item ∈ evalAll env call items, Indifferent item := by
            rw [evalAll_eq_map]
            exact List.forall_mem_map.2 ih
          exact (indifferent_choice hfirst hitems).rewinding
      | star body => exact (indifferent_star _).rewinding
      | plus body => exact (ih body List.mem_cons_self).plus.rewinding
      | optional body => exact (indifferent_optional _).rewinding
      | notAhead body => exact (indifferent_ahead false _).rewinding
      | ahead body => exact (indifferent_ahead true _).rewinding
      | rule id => exact (hcall id).rewinding
      | label name body => exact ((ih body List.mem_cons_self).labeled name).rewinding
      | action action =>
          exact Indifferent.rewinding fun m committed =>
            indifferent_runAction action (Span.emptyAt m.offset) false m committed
      | _ => exact (indifferent_terminal hfirst _).rewinding

/-- In the first pass a rule that is invoked does the same under either commitment. -/
theorem indifferent_invoke (hfirst : env.pass = .first) (allowance : Nat) (id : RuleId) :
    Indifferent (invoke env allowance id) := by
  induction allowance generalizing id with
  | zero =>
      cases hfound : env.grammar.rule? id with
      | none =>
          rw [invoke_unknown env 0 hfound]
          exact fun _ _ => rfl
      | some definition =>
          intro m committed
          rw [invoke_zero hfound, invoke_zero hfound]
          rfl
  | succ allowance ih =>
      cases hfound : env.grammar.rule? id with
      | none =>
          rw [invoke_unknown env (allowance + 1) hfound]
          exact fun _ _ => rfl
      | some definition =>
          rw [invoke_succ env allowance hfound]
          exact (indifferent_expr hfirst ih definition.body).rule hfirst id definition

end Eval

end Peg
