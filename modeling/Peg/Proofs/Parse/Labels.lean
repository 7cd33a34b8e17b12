import Mathlib
import Peg.Proofs.Grammar.Unlabeled
import Peg.Proofs.Parse.Derivation

/-!
# Parses without labels

A label names an expression in messages and in parse trees.  It does nothing else, except that
an action under a label is no action of the sequence it stands in: it sees no match.  As long
as the labels of such actions are kept, any labels may be dropped: each pass over a text comes
to the same end, with the same values, variables, memory and counts.

Main results:

- `Eval.echoed_expr`: what is left of an expression does as the expression did.
- `echoes_runPass`: a pass ends as it did with the labels.
-/

namespace Peg

open Text

variable {V : Type}

/-! ## Machines -/

/-- Two machines differ in what is reported of a parse only: in the nodes of the parse tree, in
the furthest failures, in the labels in progress and in the names of what was stood in for. -/
def Machine.SameButReports (m n : Machine V) : Prop :=
  ∃ nodes frontier scopes gaps, gaps.map Gap.position = m.gaps.map Gap.position ∧
    n = { m with nodes := nodes, frontier := frontier, scopes := scopes, gaps := gaps }

/-- What stays the same during a pass, but for the grammar. -/
abbrev Env.over (env : Env V) (grammar : Grammar V) : Env V :=
  { env with grammar := grammar }

namespace Machine.SameButReports

variable {env env' : Env V} {m n : Machine V}

/-- A machine differs from itself in nothing. -/
theorem refl (m : Machine V) : m.SameButReports m :=
  ⟨_, _, _, _, rfl, rfl⟩

/-- The reading heads are the same. -/
theorem cursor_eq (h : m.SameButReports n) : n.cursor = m.cursor := by
  rcases h with ⟨_, _, _, _, _, rfl⟩
  rfl

/-- The offsets are the same. -/
theorem offset_eq (h : m.SameButReports n) : n.offset = m.offset :=
  congrArg Cursor.offset h.cursor_eq

/-- The commitments are the same. -/
theorem committed_eq (h : m.SameButReports n) : n.committed = m.committed := by
  rcases h with ⟨_, _, _, _, _, rfl⟩
  rfl

/-- The stacks are the same, their journals included. -/
theorem stack_eq (h : m.SameButReports n) : n.stack = m.stack := by
  rcases h with ⟨_, _, _, _, _, rfl⟩
  rfl

/-- The same mismatches are remembered. -/
theorem memo_eq (h : m.SameButReports n) : n.memo = m.memo := by
  rcases h with ⟨_, _, _, _, _, rfl⟩
  rfl

/-- The same refused repairs are noted. -/
theorem wouldInsert_eq (h : m.SameButReports n) : n.wouldInsert = m.wouldInsert := by
  rcases h with ⟨_, _, _, _, _, rfl⟩
  rfl

/-- Equally many repairs have been made. -/
theorem inserted_eq (h : m.SameButReports n) : n.inserted = m.inserted := by
  rcases h with ⟨_, _, _, gaps, hgaps, rfl⟩
  have hlength := congrArg List.length hgaps
  rwa [List.length_map, List.length_map] at hlength

/-- Mismatches are remembered for the same surroundings. -/
theorem memoContext_eq (h : m.SameButReports n) (env : Env V) (grammar : Grammar V) :
    n.memoContext (env.over grammar) = m.memoContext env := by
  rw [Machine.memoContext, Machine.memoContext, h.inserted_eq]
  rcases h with ⟨_, _, _, _, _, rfl⟩
  rfl

/-- Failures are noted for the report. -/
theorem recordFailure (h : m.SameButReports n) (env env' : Env V) (offset offset' : Nat)
    (expected expected' : Expected V) :
    (m.recordFailure env offset expected).SameButReports
      (n.recordFailure env' offset' expected') := by
  rw [recordFailure_eq env, recordFailure_eq env']
  rcases h with ⟨_, _, _, _, hgaps, rfl⟩
  exact ⟨_, _, _, _, hgaps, rfl⟩

/-- Whatever names are noted as failed belongs to the reports. -/
theorem recordNamed (h : m.SameButReports n) (env env' : Env V) (start start' : Nat)
    (before before' : Frontier V) (expected expected' : Expected V) :
    (m.recordNamed env start before expected).SameButReports
      (n.recordNamed env' start' before' expected') := by
  rw [recordNamed_eq env, recordNamed_eq env']
  rcases h with ⟨_, _, _, _, hgaps, rfl⟩
  exact ⟨_, _, _, _, hgaps, rfl⟩

/-- The same event happens in both parses. -/
theorem emit (h : m.SameButReports n) {event event' : Event} (hevent : event' = event) :
    (m.emit event).SameButReports (n.emit event') := by
  subst hevent
  rcases h with ⟨_, _, _, _, hgaps, rfl⟩
  exact ⟨_, _, _, _, hgaps, rfl⟩

/-- Nodes belong to the reports. -/
theorem withNodes (h : m.SameButReports n) (nodes nodes' : List Tree) :
    Machine.SameButReports { m with nodes := nodes } { n with nodes := nodes' } := by
  rcases h with ⟨_, _, _, _, hgaps, rfl⟩
  exact ⟨_, _, _, _, hgaps, rfl⟩

/-! ### What is opened and closed -/

variable {left left' : Machine V}

/-- A round of a choice is opened in both. -/
theorem openRound (h : m.SameButReports n) :
    (Eval.openRound m).SameButReports (Eval.openRound n) := by
  rcases h with ⟨_, _, _, _, hgaps, rfl⟩
  exact ⟨_, _, _, _, hgaps, rfl⟩

/-- A round of a choice is kept in both. -/
theorem keepRound (h : m.SameButReports n) (hleft : left.SameButReports left') :
    (Eval.keepRound m left).SameButReports (Eval.keepRound n left') := by
  rcases h with ⟨_, _, _, _, _, rfl⟩
  rcases hleft with ⟨_, _, _, _, hgaps, rfl⟩
  exact ⟨_, _, _, _, hgaps, rfl⟩

/-- A round of a choice is taken back in both. -/
theorem undoRound (h : m.SameButReports n) (hleft : left.SameButReports left') :
    (Eval.undoRound m left).SameButReports (Eval.undoRound n left') := by
  rcases h with ⟨_, _, _, _, _, rfl⟩
  rcases hleft with ⟨_, _, _, _, hgaps, rfl⟩
  exact ⟨_, _, _, _, hgaps, rfl⟩

/-- A lookahead is opened in both. -/
theorem openProbe (h : m.SameButReports n) :
    (Eval.openProbe m).SameButReports (Eval.openProbe n) := by
  rcases h with ⟨_, _, _, _, hgaps, rfl⟩
  exact ⟨_, _, _, _, hgaps, rfl⟩

/-- A lookahead is closed in both. -/
theorem closeProbe (h : m.SameButReports n) (hleft : left.SameButReports left') :
    (Eval.closeProbe m left).SameButReports (Eval.closeProbe n left') := by
  rcases h with ⟨_, _, _, _, _, rfl⟩
  rcases hleft with ⟨_, _, _, _, hgaps, rfl⟩
  exact ⟨_, _, _, _, hgaps, rfl⟩

/-- A label is opened for the report. -/
theorem openLabel_left (h : m.SameButReports n) (name : String) :
    (Eval.openLabel name m).SameButReports n := by
  rcases h with ⟨_, _, _, _, hgaps, rfl⟩
  exact ⟨_, _, _, _, hgaps, rfl⟩

/-- A label may be opened in the second parse only. -/
theorem openLabel_right (h : m.SameButReports n) (name : String) :
    m.SameButReports (Eval.openLabel name n) := by
  rcases h with ⟨_, _, _, _, hgaps, rfl⟩
  exact ⟨_, _, _, _, hgaps, rfl⟩

variable {definition definition' : Rule V}

/-- Both parses count that a mismatch was not remembered. -/
theorem countMiss (h : m.SameButReports n) (env : Env V) (grammar : Grammar V)
    (hoptions : definition'.options = definition.options) :
    (Eval.countMiss env definition m).SameButReports
      (Eval.countMiss (env.over grammar) definition' n) := by
  unfold Eval.countMiss
  rw [hoptions]
  split
  next =>
      rcases h with ⟨_, _, _, _, hgaps, rfl⟩
      exact ⟨_, _, _, _, hgaps, rfl⟩
  next => exact h

/-- A rule is entered in both. -/
theorem enterRule (h : m.SameButReports n) (id : RuleId)
    (hoptions : definition'.options = definition.options) :
    (Eval.enterRule id definition m).SameButReports (Eval.enterRule id definition' n) := by
  unfold Eval.enterRule
  rw [hoptions]
  rcases h with ⟨_, _, _, _, hgaps, rfl⟩
  exact ⟨_, _, _, _, hgaps, rfl⟩

/-- A rule is left in both. -/
theorem leaveRule (h : m.SameButReports n) (hleft : left.SameButReports left')
    (hoptions : definition'.options = definition.options) :
    (Eval.leaveRule definition m left).SameButReports (Eval.leaveRule definition' n left') := by
  unfold Eval.leaveRule
  rw [hoptions]
  rcases h with ⟨_, _, _, _, _, rfl⟩
  rcases hleft with ⟨_, _, _, _, hgaps, rfl⟩
  exact ⟨_, _, _, _, hgaps, rfl⟩

end Machine.SameButReports

namespace Eval

/-! ## Evaluations -/

/-- Two outcomes differ in reports only. -/
inductive Echoes : Verdict × Machine V → Verdict × Machine V → Prop
  | intro (verdict : Verdict) {left left' : Machine V} (h : left.SameButReports left') :
      Echoes (verdict, left) (verdict, left')

/-- Two evaluations do alike, wherever they are started. -/
def Echoed (eval eval' : Eval V) : Prop :=
  ∀ m n, m.SameButReports n → Echoes (eval m) (eval' n)

/-- Two items of a sequence do alike. -/
inductive Element.Echoed : Element V → Element V → Prop
  | act (action : Action V) : Element.Echoed (.act action) (.act action)
  | part {eval eval' : Eval V} (h : Eval.Echoed eval eval') :
      Element.Echoed (.part eval) (.part eval')

variable {fits : Expr V → Expr V → Prop} {env : Env V} {grammar' : Grammar V}
variable {eval eval' : Eval V}

namespace Echoed

/-- Both parses go back after a mismatch. -/
theorem rewinding (h : Echoed eval eval') :
    Echoed (Eval.rewinding eval) (Eval.rewinding eval') := by
  intro m n hmn
  have hechoes := h m n hmn
  unfold Eval.rewinding
  generalize eval m = o at hechoes ⊢
  generalize eval' n = o' at hechoes ⊢
  cases hechoes with
  | intro verdict hleft =>
      cases verdict with
      | matched => exact .intro _ hleft
      | mismatched =>
          rcases hmn with ⟨_, _, _, _, _, rfl⟩
          rcases hleft with ⟨_, _, _, _, hgaps, rfl⟩
          exact .intro _ ⟨_, _, _, _, hgaps, rfl⟩
      | aborted error => exact .intro _ hleft

/-- Going back after a mismatch changes nothing where that has been done. -/
theorem rewound (h : Echoed eval eval')
    (hback : ∀ n left', eval' n = (.mismatched, left') → left'.cursor = n.cursor) :
    Echoed (Eval.rewinding eval) eval' := by
  intro m n hmn
  have hechoes := h m n hmn
  have hcursor := hback n
  unfold Eval.rewinding
  generalize eval m = o at hechoes ⊢
  generalize eval' n = o' at hechoes hcursor ⊢
  cases hechoes with
  | intro verdict hleft =>
      cases verdict with
      | matched => exact .intro _ hleft
      | mismatched =>
          have hcursor := hcursor _ rfl
          rw [hleft.cursor_eq, hmn.cursor_eq] at hcursor
          dsimp only
          rw [← hcursor]
          rcases hleft with ⟨_, _, _, _, hgaps, rfl⟩
          exact .intro _ ⟨_, _, _, _, hgaps, rfl⟩
      | aborted error => exact .intro _ hleft

/-- Both parses give the commitment back. -/
theorem keepingCommitment (h : Echoed eval eval') :
    Echoed (Eval.keepingCommitment eval) (Eval.keepingCommitment eval') := by
  intro m n hmn
  have hechoes := h m n hmn
  unfold Eval.keepingCommitment
  generalize eval m = o at hechoes ⊢
  generalize eval' n = o' at hechoes ⊢
  cases hechoes with
  | intro verdict hleft =>
      rcases hmn with ⟨_, _, _, _, _, rfl⟩
      rcases hleft with ⟨_, _, _, _, hgaps, rfl⟩
      exact .intro _ ⟨_, _, _, _, hgaps, rfl⟩

/-- Both evaluations start under one commitment. -/
theorem commit (h : Echoed eval eval') {m n : Machine V} (hmn : m.SameButReports n)
    (committed : Bool) :
    Echoes (eval { m with committed := committed }) (eval' { n with committed := committed }) := by
  apply h
  rcases hmn with ⟨_, _, _, _, hgaps, rfl⟩
  exact ⟨_, _, _, _, hgaps, rfl⟩

end Echoed

/-! ## Terminals and actions -/

/-- A missing terminal is stood in for or not, whatever it is reported as. -/
theorem echoed_missing (e : Expr V) :
    Echoed (missing env e) (missing (env.over grammar') e) := by
  intro m n hmn
  have hinserted := hmn.inserted_eq
  have hpass : (env.over grammar').pass = env.pass := rfl
  unfold missing
  rw [hpass]
  split
  next => exact .intro _ (hmn.recordFailure ..)
  next errorOffset _ =>
      have hstand : mayStandIn (env.over grammar') errorOffset e n =
          mayStandIn env errorOffset e m := by
        rw [mayStandIn, mayStandIn, hinserted]
        rcases hmn with ⟨_, _, _, _, _, rfl⟩
        rfl
      rw [hstand]
      rcases hmn with ⟨_, _, _, gaps, hgaps, rfl⟩
      split
      next =>
          dsimp only
          split
          next =>
              refine .intro _ ⟨_, _, _, ⟨_, _⟩ :: gaps, ?_, rfl⟩
              exact congrArg (_ :: ·) hgaps
          next => exact .intro _ ⟨_, _, _, _, hgaps, rfl⟩
      next => exact .intro _ ⟨_, _, _, _, hgaps, rfl⟩

/-- A terminal does the same in both: the grammar has no say in it. -/
theorem echoed_terminal (e : Expr V) :
    Echoed (terminal env e) (terminal (env.over grammar') e) := by
  intro m n hmn
  unfold terminal
  rw [hmn.cursor_eq]
  split
  next cursor hconsume =>
      rcases hmn with ⟨_, _, _, _, hgaps, rfl⟩
      exact .intro _ ⟨_, _, _, _, hgaps, rfl⟩
  next hconsume => exact echoed_missing e m n hmn

/-- An action that fails is reported under the name of its rule. -/
theorem echoed_runAction (hnames : ∀ id, grammar'.ruleName id = env.grammar.ruleName id)
    (action : Action V) (span : Span) (synthetic : Bool) :
    Echoed (runAction env action span synthetic)
      (runAction (env.over grammar') action span synthetic) := by
  intro m n hmn
  have hname : ∀ rule? : Option RuleId,
      rule?.map grammar'.ruleName = rule?.map env.grammar.ruleName := fun rule? =>
    congrArg rule?.map (funext hnames)
  rcases hmn with ⟨_, _, _, _, hgaps, rfl⟩
  unfold runAction
  dsimp only
  rw [hname]
  generalize (action _).run ⟨m.stack, m.vars⟩ = result
  rcases result with ⟨error | _ | _, space⟩
  · exact .intro _ ⟨_, _, _, _, hgaps, rfl⟩
  · exact .intro _ ⟨_, _, _, _, hgaps, rfl⟩
  · exact .intro _ ⟨_, _, _, _, hgaps, rfl⟩

/-! ## Sequences and choices -/

/-- The items of a sequence do the same one after another. -/
theorem echoed_runElements (hnames : ∀ id, grammar'.ruleName id = env.grammar.ruleName id)
    {items items' : List (Element V)} (hitems : List.Forall₂ Element.Echoed items items')
    (start : Nat) (inherited : Bool) (previous : Span) (synthetic : Bool) :
    Echoed (runElements env start inherited items previous synthetic)
      (runElements (env.over grammar') start inherited items' previous synthetic) := by
  induction hitems generalizing previous synthetic with
  | nil => exact fun m n hmn => .intro _ hmn
  | cons hitem hrest ih =>
      intro m n hmn
      cases hitem with
      | act action =>
          have hechoes := echoed_runAction hnames action previous synthetic m n hmn
          rw [runElements, runElements]
          generalize runAction env action previous synthetic m = o at hechoes ⊢
          generalize runAction (env.over grammar') action previous synthetic n = o' at hechoes ⊢
          cases hechoes with
          | intro verdict hleft =>
              cases verdict with
              | matched => exact ih previous synthetic _ _ hleft
              | mismatched => exact .intro _ hleft
              | aborted error => exact .intro _ hleft
      | @part eval eval' hpart =>
          have hechoes := hpart.commit hmn (inherited || decide (start < m.offset))
          rw [runElements, runElements, hmn.offset_eq, hmn.inserted_eq]
          generalize eval _ = o at hechoes ⊢
          generalize eval' _ = o' at hechoes ⊢
          cases hechoes with
          | intro verdict hleft =>
              cases verdict with
              | matched =>
                  dsimp only
                  rw [hleft.offset_eq, hleft.inserted_eq]
                  exact ih _ _ _ _ hleft
              | mismatched => exact .intro _ hleft
              | aborted error => exact .intro _ hleft

/-- A sequence does the same if its items do. -/
theorem echoed_sequence (hnames : ∀ id, grammar'.ruleName id = env.grammar.ruleName id)
    {items items' : List (Element V)} (hitems : List.Forall₂ Element.Echoed items items') :
    Echoed (sequence env items) (sequence (env.over grammar') items') := by
  refine Echoed.keepingCommitment fun m n hmn => ?_
  rw [hmn.offset_eq, hmn.committed_eq]
  exact echoed_runElements hnames hitems _ _ _ _ m n hmn

/-- Alternatives do the same if each of them does. -/
theorem echoed_alternatives {items items' : List (Eval V)}
    (hitems : List.Forall₂ Echoed items items') :
    Echoed (alternatives items) (alternatives items') := by
  induction hitems with
  | nil => exact fun m n hmn => .intro _ hmn
  | @cons eval eval' items items' hitem hrest ih =>
      intro m n hmn
      have hechoes := hitem m n hmn
      have hempty : items'.isEmpty = items.isEmpty := by
        cases hrest <;> rfl
      rw [alternatives, alternatives, hempty]
      generalize eval m = o at hechoes ⊢
      generalize eval' n = o' at hechoes ⊢
      cases hechoes with
      | intro verdict hleft =>
          cases verdict with
          | matched => exact .intro _ hleft
          | mismatched =>
              dsimp only
              split
              next => exact .intro _ hleft
              next =>
                  apply ih
                  rcases hleft with ⟨_, _, _, _, hgaps, rfl⟩
                  exact ⟨_, _, _, _, hgaps, rfl⟩
          | aborted error => exact .intro _ hleft

/-- A choice takes the same rounds to the same end. -/
theorem echoed_choice {items items' : List (Eval V)} (hitems : List.Forall₂ Echoed items items') :
    Echoed (choice env items) (choice (env.over grammar') items') := by
  intro m n hmn
  have htwo : takesTwoRounds (env.over grammar') n = takesTwoRounds env m := by
    rcases hmn with ⟨_, _, _, _, _, rfl⟩
    rfl
  unfold choice
  rw [htwo]
  split
  next =>
      have hechoes := echoed_alternatives hitems _ _ hmn.openRound
      generalize alternatives items (openRound m) = o at hechoes ⊢
      generalize alternatives items' (openRound n) = o' at hechoes ⊢
      cases hechoes with
      | intro verdict hleft =>
          cases verdict with
          | matched => exact .intro _ (hmn.keepRound hleft)
          | mismatched =>
              dsimp only
              rw [hleft.wouldInsert_eq]
              split
              next => exact echoed_alternatives hitems _ _ (hmn.undoRound hleft)
              next => exact .intro _ (hmn.keepRound hleft)
          | aborted error => exact .intro _ (hmn.keepRound hleft)
  next => exact echoed_alternatives hitems m n hmn

/-! ## Repetitions, options and lookahead -/

/-- Equally many bytes are left in both. -/
theorem remaining_over {m n : Machine V} (hmn : m.SameButReports n) :
    remaining (env.over grammar') n = remaining env m := by
  rw [remaining, remaining, hmn.offset_eq]

/-- Iterations do the same, and end together. -/
theorem Echoed.many (h : Echoed eval eval') :
    Echoed (Eval.many env eval) (Eval.many (env.over grammar') eval') := by
  intro m n hmn
  -- Both loops go round as long as the number of bytes left gets smaller.
  induction hbytes : remaining env m using Nat.strongRecOn generalizing m n with
  | _ bytes ih =>
      have hechoes := h.commit hmn false
      rw [Eval.many, Eval.many]
      generalize eval { m with committed := false } = o at hechoes ⊢
      generalize eval' { n with committed := false } = o' at hechoes ⊢
      cases hechoes with
      | intro verdict hleft =>
          cases verdict with
          | matched =>
              simp only [remaining_over hmn, remaining_over hleft]
              split
              next hless => exact ih _ (hbytes ▸ hless) _ _ hleft rfl
              next => exact .intro _ hleft
          | mismatched => exact .intro _ hleft
          | aborted error => exact .intro _ hleft

/-- A repetition does the same if its body does. -/
theorem Echoed.star (h : Echoed eval eval') :
    Echoed (Eval.star env eval) (Eval.star (env.over grammar') eval') :=
  h.many.keepingCommitment

/-- So does a repetition with a first iteration that must match. -/
theorem Echoed.plus (h : Echoed eval eval') :
    Echoed (Eval.plus env eval) (Eval.plus (env.over grammar') eval') := by
  refine Echoed.keepingCommitment fun m n hmn => ?_
  have hechoes := h m n hmn
  generalize eval m = o at hechoes ⊢
  generalize eval' n = o' at hechoes ⊢
  cases hechoes with
  | intro verdict hleft =>
      cases verdict with
      | matched =>
          simp only [remaining_over hmn, remaining_over hleft]
          split
          next => exact h.many _ _ hleft
          next => exact .intro _ hleft
      | mismatched => exact .intro _ hleft
      | aborted error => exact .intro _ hleft

/-- An option does the same if its body does. -/
theorem Echoed.optional (h : Echoed eval eval') :
    Echoed (Eval.optional eval) (Eval.optional eval') := by
  refine Echoed.keepingCommitment fun m n hmn => ?_
  have hechoes := h.commit hmn false
  generalize eval { m with committed := false } = o at hechoes ⊢
  generalize eval' { n with committed := false } = o' at hechoes ⊢
  cases hechoes with
  | intro verdict hleft => cases verdict <;> exact .intro _ hleft

/-- A lookahead does the same if its body does. -/
theorem Echoed.ahead (h : Echoed eval eval') (expectMatch : Bool) :
    Echoed (Eval.ahead expectMatch eval) (Eval.ahead expectMatch eval') := by
  intro m n hmn
  have hechoes := h _ _ hmn.openProbe
  unfold Eval.ahead
  generalize eval (openProbe m) = o at hechoes ⊢
  generalize eval' (openProbe n) = o' at hechoes ⊢
  cases hechoes with
  | intro verdict hleft => exact .intro _ (hmn.closeProbe hleft)

/-! ## Labels -/

/-- A label leaves no trace but in reports. -/
theorem echoed_labeled_dropped (h : Echoed eval eval') (name : String) :
    Echoed (labeled env name eval) eval' := by
  intro m n hmn
  have hechoes := h _ _ (hmn.openLabel_left name)
  rw [labeled_eq]
  generalize eval (openLabel name m) = o at hechoes ⊢
  generalize eval' n = o' at hechoes ⊢
  cases hechoes with
  | intro verdict hleft =>
      rcases hleft with ⟨_, _, _, _, hgaps, rfl⟩
      cases verdict with
      | matched => exact .intro _ ⟨_, _, _, _, hgaps, rfl⟩
      | mismatched =>
          dsimp only
          rw [noteFailure_eq]
          exact .intro _ ⟨_, _, _, _, hgaps, rfl⟩
      | aborted error => exact .intro _ ⟨_, _, _, _, hgaps, rfl⟩

/-- A label that is kept does the same around what does the same. -/
theorem Echoed.labeled (h : Echoed eval eval') (name : String) :
    Echoed (Eval.labeled env name eval) (Eval.labeled (env.over grammar') name eval') := by
  intro m n hmn
  have hechoes := h _ _ ((hmn.openLabel_left name).openLabel_right name)
  rw [labeled_eq, labeled_eq]
  generalize eval (openLabel name m) = o at hechoes ⊢
  generalize eval' (openLabel name n) = o' at hechoes ⊢
  cases hechoes with
  | intro verdict hleft =>
      rcases hleft with ⟨_, _, _, _, hgaps, rfl⟩
      cases verdict with
      | matched => exact .intro _ ⟨_, _, _, _, hgaps, rfl⟩
      | mismatched =>
          dsimp only
          rw [noteFailure_eq env, noteFailure_eq (env.over grammar')]
          exact .intro _ ⟨_, _, _, _, hgaps, rfl⟩
      | aborted error => exact .intro _ ⟨_, _, _, _, hgaps, rfl⟩

/-! ## Rules -/

section Rules

variable {definition definition' : Rule V}

/-- A rule is looked up alike. -/
theorem memoKey?_over (env : Env V) (grammar' : Grammar V)
    (hoptions : definition'.options = definition.options) (id : RuleId) {m n : Machine V}
    (hmn : m.SameButReports n) :
    memoKey? (env.over grammar') id definition' n = memoKey? env id definition m := by
  unfold memoKey?
  rw [hmn.offset_eq, hmn.memoContext_eq, hoptions]

/-- A mismatch is remembered alike. -/
theorem remember_over (env : Env V) (grammar' : Grammar V) (key? : Option MemoKey)
    (wouldInsert : Bool) {m n left left' : Machine V} (hmn : m.SameButReports n)
    (hleft : left.SameButReports left') :
    (remember env key? wouldInsert m left).SameButReports
      (remember (env.over grammar') key? wouldInsert n left') := by
  cases key? with
  | none => exact hleft
  | some key =>
      rw [remember, remember, hleft.inserted_eq, hmn.inserted_eq]
      dsimp only
      split
      next =>
          rcases hleft with ⟨_, _, _, _, hgaps, rfl⟩
          exact ⟨_, _, _, _, hgaps, rfl⟩
      next => exact hleft

/-- A rule does the same if its body does, with whatever labels. -/
theorem Echoed.body (h : Echoed eval eval') (hrule : definition.Unlabels fits definition')
    (id : RuleId) (key? : Option MemoKey) :
    Echoed (Eval.body env id definition key? eval)
      (Eval.body (env.over grammar') id definition' key? eval') := by
  intro m n hmn
  have hechoes := h _ _ (hmn.enterRule id hrule.options_eq)
  unfold Eval.body
  generalize eval (enterRule id definition m) = o at hechoes ⊢
  generalize eval' (enterRule id definition' n) = o' at hechoes ⊢
  cases hechoes with
  | @intro verdict inside inside' hinside =>
      have hleave := hmn.leaveRule hinside hrule.options_eq
      cases verdict with
      | matched =>
          dsimp only
          rw [contribute_eq id definition, contribute_eq id definition']
          have hadded := hleave.withNodes
            (contribute id definition m (leaveRule definition m inside)).nodes
            (contribute id definition' n (leaveRule definition' n inside')).nodes
          exact .intro _ (hadded.emit (by rw [hadded.offset_eq]))
      | mismatched =>
          dsimp only
          rw [hinside.wouldInsert_eq]
          have hback := hleave.withNodes m.nodes n.nodes
          have hnamed := (remember_over env grammar' key? inside.wouldInsert hmn hback).recordNamed
            env (env.over grammar') m.offset n.offset m.frontier n.frontier (.rule id) (.rule id)
          exact .intro _ (hnamed.emit (by rw [hnamed.offset_eq]))
      | aborted error => exact .intro _ hleave

/-- A rule does the same, whether its mismatch is remembered or not. -/
theorem Echoed.rule (h : Echoed eval eval') (hrule : definition.Unlabels fits definition')
    (id : RuleId) :
    Echoed (Eval.rule env id definition eval)
      (Eval.rule (env.over grammar') id definition' eval') := by
  intro m n hmn
  have hkey := memoKey?_over env grammar' hrule.options_eq id hmn
  have hknown : known? (env.over grammar') id definition' n = known? env id definition m := by
    rw [known?, known?, hkey, hmn.memo_eq]
  rw [rule_eq, rule_eq, hkey, hknown]
  split
  next refused hrefused =>
      have hoffset := hmn.offset_eq
      unfold knownMismatch
      rw [hoffset]
      dsimp only
      refine .intro _ (Machine.SameButReports.recordNamed ?_ ..)
      rcases hmn with ⟨_, _, _, _, hgaps, rfl⟩
      exact ⟨_, _, _, _, hgaps, rfl⟩
  next => exact h.body hrule id _ _ _ (hmn.countMiss env grammar' hrule.options_eq)

end Rules

/-! ## Expressions -/

section Expressions

variable {call call' : RuleId → Eval V} {e e' : Expr V}

/-- An item of a sequence gives way to one of its kind. -/
theorem echoed_ofExpr (h : e.Unlabels fits e') (hkind : e.SameKind e')
    (heval : Echoed eval eval') :
    (Element.ofExpr eval e).Echoed (Element.ofExpr eval' e') := by
  cases h with
  | action action => exact .act action
  | drop name h =>
      cases e' with
      | action action => cases hkind
      | _ => exact .part heval
  | @terminal e hterminal =>
      cases e with
      | action action => cases hterminal
      | _ => exact .part heval
  | _ => exact .part heval

/-- What is left of an expression does as the expression did, if the rules do. -/
theorem echoed_expr (hnames : ∀ id, grammar'.ruleName id = env.grammar.ruleName id)
    (hcall : ∀ id, Echoed (call id) (call' id)) (h : e.Unlabels Expr.SameKind e') :
    Echoed (expr env call e) (expr (env.over grammar') call' e') := by
  induction h using Expr.Unlabels.induct with
  | @terminal e hterminal =>
      intro m n hmn
      rw [expr_of_isTerminal hterminal, expr_of_isTerminal hterminal]
      exact (echoed_terminal e).rewinding m n hmn
  | rule id => exact (hcall id).rewinding
  | action action =>
      refine Echoed.rewinding fun m n hmn => ?_
      rw [hmn.offset_eq]
      exact echoed_runAction hnames action _ false m n hmn
  | @seq items items' hitems hfits ih =>
      refine Echoed.rewinding (echoed_sequence hnames ?_)
      rw [elements_eq_map, elements_eq_map]
      refine List.forall₂_map_left_iff.2 (List.forall₂_map_right_iff.2 (ih.mp ?_ hfits))
      exact fun _ _ ⟨hitem, heval⟩ hkind => echoed_ofExpr hitem hkind heval
  | choice hitems ih =>
      refine Echoed.rewinding (echoed_choice ?_)
      rw [evalAll_eq_map, evalAll_eq_map]
      exact List.forall₂_map_left_iff.2 (List.forall₂_map_right_iff.2 (ih.imp fun _ _ ⟨_, h⟩ => h))
  | star h ih => exact ih.star.rewinding
  | plus h ih => exact ih.plus.rewinding
  | optional h ih => exact ih.optional.rewinding
  | notAhead h ih => exact (ih.ahead false).rewinding
  | ahead h ih => exact (ih.ahead true).rewinding
  | keep name h ih => exact (ih.labeled name).rewinding
  | drop name h ih =>
      -- The body goes back by itself when it does not match.
      exact (echoed_labeled_dropped ih name).rewound fun _ _ hmiss => (expr_mismatched hmiss).1

/-- Rules do alike if they have the same bodies, but for labels. -/
theorem echoed_invoke (env : Env V) (h : env.grammar.Unlabels Expr.SameKind grammar')
    (allowance : Nat) (id : RuleId) :
    Echoed (invoke env allowance id) (invoke (env.over grammar') allowance id) := by
  have hrule := h.rule? id
  generalize hfound : env.grammar.rule? id = found at hrule
  generalize hfound' : grammar'.rule? id = found' at hrule
  induction allowance generalizing id found found' with
  | zero =>
      intro m n hmn
      cases hrule with
      | none =>
          rw [invoke_unknown _ _ hfound, invoke_unknown (env.over grammar') _ hfound']
          exact .intro _ hmn
      | some hrule =>
          have hzero : invoke (env.over grammar') 0 id n = _ := invoke_zero hfound'
          rw [invoke_zero hfound, hzero, hmn.offset_eq]
          exact .intro _ hmn
  | succ allowance ih =>
      cases hrule with
      | none =>
          rw [invoke_unknown _ _ hfound, invoke_unknown (env.over grammar') _ hfound']
          exact fun m n hmn => .intro _ hmn
      | some hrule =>
          rw [invoke_succ _ _ hfound, invoke_succ (env.over grammar') _ hfound']
          refine (echoed_expr h.ruleName_eq (fun id => ?_) hrule.body).rule hrule id
          exact ih id _ rfl _ rfl (h.rule? id)

end Expressions

end Eval

/-! ## Passes -/

variable {grammar grammar' : Grammar V}

/-- A pass ends as it did with the labels, in a machine that differs in reports only. -/
theorem echoes_runPass (h : grammar.Unlabels Expr.SameKind grammar') (source : Source)
    (settings : Settings) (pass : Pass) (root : RuleId) :
    Eval.Echoes (runPass ⟨grammar, source, settings, pass⟩ root)
      (runPass ⟨grammar', source, settings, pass⟩ root) :=
  Eval.echoed_invoke ⟨grammar, source, settings, pass⟩ h settings.maxDepth root _ _ (.refl _)

/-- In an accepted grammar labels may be dropped, as long as no item of a sequence becomes an
action by it.  The grammar is still accepted, and from every root, against every text and under
all settings, the first pass ends the same way: with a match up to the same offset and with the
same values, with a mismatch, or with the same error. -/
theorem runPass_eq_of_unlabels {draft : Draft V} (hbuild : draft.build = .ok grammar)
    (h : grammar.Unlabels Expr.SameKind grammar') :
    (∃ draft' : Draft V, draft'.build = .ok grammar') ∧
      ∀ (source : Source) (settings : Settings) (root : RuleId),
        let o := runPass ⟨grammar, source, settings, .first⟩ root
        let o' := runPass ⟨grammar', source, settings, .first⟩ root
        o'.1 = o.1 ∧ o'.2.offset = o.2.offset ∧ o'.2.stack.toList = o.2.stack.toList := by
  refine ⟨h.exists_build hbuild, fun source settings root => ?_⟩
  have hechoes := echoes_runPass h source settings .first root
  dsimp only
  generalize runPass ⟨grammar, source, settings, .first⟩ root = o at hechoes ⊢
  generalize runPass ⟨grammar', source, settings, .first⟩ root = o' at hechoes ⊢
  cases hechoes with
  | intro verdict hleft => exact ⟨rfl, hleft.offset_eq, by rw [hleft.stack_eq]⟩

/-- An action that reads how many characters were matched in front of it. -/
def readLength : Action Nat := fun view => do
  Program.push view.matched.length
  return true

/-- A list of letters, each with the rest of them behind it, all under labels. -/
def labeledLetters : Grammar Nat where
  rules := #[⟨"letters", .label "letters" (.seq [.label "letter" (.char 'x'), .action readLength,
    .label "rest" (.choice [.label "more" (.rule ⟨0⟩), .label "end" (.action readLength)])]), {}⟩]

/-- The same list without most of the labels. -/
def letters : Grammar Nat where
  rules := #[⟨"letters", .seq [.char 'x', .action readLength,
    .label "rest" (.choice [.rule ⟨0⟩, .action readLength])], {}⟩]

/-- Labels dropped around a rule, a character and a choice: the lengths read are those with the
labels. -/
theorem runPass_letters :
    labeledLetters.Unlabels Expr.SameKind letters ∧
      (∃ draft : Draft Nat, draft.build = .ok letters) ∧
      (runPass ⟨letters, .plain ['x', 'x'], {}, .first⟩ ⟨0⟩).1 = .matched ∧
      (runPass ⟨letters, .plain ['x', 'x'], {}, .first⟩ ⟨0⟩).2.offset = 2 ∧
      (runPass ⟨letters, .plain ['x', 'x'], {}, .first⟩ ⟨0⟩).2.stack.toList = [1, 1, 0] := by
  have hunlabels : labeledLetters.Unlabels Expr.SameKind letters := by
    refine .cons ⟨rfl, rfl, .drop _ (.seq (.cons (.drop _ (.terminal rfl)) (.cons (.action _)
      (.cons (.keep _ (.choice (.cons (.drop _ (.rule _)) (.cons (.drop _ (.action _)) .nil))))
        .nil))) ?_)⟩ .nil
    exact .cons rfl (.cons rfl (.cons rfl .nil))
  have hbuild : (Draft.empty.rule "letters" (.label "letters" (.seq [.label "letter" (.char 'x'),
      .action readLength, .label "rest" (.choice [.label "more" (.rule ⟨0⟩),
        .label "end" (.action readLength)])]))).2.build = .ok labeledLetters := by
    cbv
  rcases runPass_eq_of_unlabels hbuild hunlabels with ⟨hdraft, hsame⟩
  rcases hsame (.plain ['x', 'x']) {} ⟨0⟩ with ⟨hverdict, hoffset, hvalues⟩
  refine ⟨hunlabels, hdraft, hverdict.trans ?_, hoffset.trans ?_, hvalues.trans ?_⟩ <;> cbv

/-- A letter with an action behind it, which is under a label. -/
def labeledRead : Grammar Nat where
  rules := #[⟨"letter", .seq [.char 'x', .label "length" (.action readLength)], {}⟩]

/-- The same without the label. -/
def plainRead : Grammar Nat where
  rules := #[⟨"letter", .seq [.char 'x', .action readLength], {}⟩]

/-- Under a label the action sees no match, without it it sees the letter. -/
theorem runPass_ne_of_labeled_action :
    (∃ draft : Draft Nat, draft.build = .ok labeledRead) ∧
      labeledRead.Unlabels (fun _ _ => True) plainRead ∧
      (runPass ⟨labeledRead, .plain ['x'], {}, .first⟩ ⟨0⟩).1 = .matched ∧
      (runPass ⟨labeledRead, .plain ['x'], {}, .first⟩ ⟨0⟩).2.stack.toList = [0] ∧
      (runPass ⟨plainRead, .plain ['x'], {}, .first⟩ ⟨0⟩).1 = .matched ∧
      (runPass ⟨plainRead, .plain ['x'], {}, .first⟩ ⟨0⟩).2.stack.toList = [1] := by
  refine ⟨⟨(Draft.empty.rule "letter" (.seq [.char 'x', .label "length" (.action readLength)])).2,
    by cbv⟩, ?_, by cbv, by cbv, by cbv, by cbv⟩
  exact .cons ⟨rfl, rfl, .seq (.cons (.terminal rfl) (.cons (.drop _ (.action _)) .nil))
    (.cons trivial (.cons trivial .nil))⟩ .nil

end Peg
