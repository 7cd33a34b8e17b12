import Peg.Parse.Machine

/-!
# Evaluation of parsing expressions

An evaluation takes a machine to a verdict and a machine.  It matches, leaving
the reading head behind what it consumed; or it does not match, leaving the
reading head and the finished nodes as they were; or it ends the parse with an
error.  Changes of the value stack and of variables outlive a mismatch; only
lookaheads take them back.

Each way of combining expressions is a function on evaluations.  The evaluation
of an expression is put together along its structure, and the invocation of a
rule is counted against the number of nested invocations that are still allowed.

Main results:

- `rewinding_mismatched`: after a mismatch the reading head and the nodes are
  back where they were.
- `ahead_cursor` and `ahead_nodes`: a lookahead leaves the reading head and the
  nodes as they were.
- `evalAll_eq_map` and `elements_eq_map`: expressions are evaluated one by one.
-/

namespace Peg

open Text

/-- How an evaluation ends. -/
inductive Verdict where
  | matched
  | mismatched
  | aborted (error : ParseError)
  deriving DecidableEq, Repr

/-- An evaluation of an expression. -/
abbrev Eval (V : Type) : Type :=
  Machine V → Verdict × Machine V

namespace Eval

variable {V : Type}

/-! ## Going back -/

/-- Go back to the reading head and the nodes of the start after a mismatch. -/
def rewinding (eval : Eval V) : Eval V := fun m =>
  match eval m with
  | (.mismatched, left) => (.mismatched, { left with cursor := m.cursor, nodes := m.nodes })
  | outcome => outcome

/-- Give the surroundings their commitment back. -/
def keepingCommitment (eval : Eval V) : Eval V := fun m =>
  let (verdict, left) := eval m
  (verdict, { left with committed := m.committed })

/-! ## Terminals -/

/-- The reading head after a terminal, if it matches. -/
def consume? : Expr V → Cursor → Option Cursor
  | .char c, cursor => cursor.eatIf? (· == c)
  | .range low high, cursor => cursor.eatIf? fun c => low ≤ c && c ≤ high
  | .oneOf set, cursor => cursor.eatIf? set.matches
  | .literal text ignoreCase, cursor =>
    if ignoreCase then cursor.eatLiteralIgnoringCase? text.toList
    else cursor.eatLiteral? text.toList
  | .any, cursor => cursor.eatIf? fun _ => true
  | .endOfInput, cursor => if cursor.atEnd then some cursor else none
  | .empty, cursor => some cursor
  | _, _ => none

/-- Whether a terminal can be stood in for. -/
def replaceable : Expr V → Bool
  | .endOfInput | .nothing => false
  | _ => true

/-- Whether a terminal that is missing here may be stood in for, or could be if
repairs were switched on. -/
def mayStandIn (env : Env V) (errorOffset : Nat) (terminal : Expr V) (m : Machine V) : Bool :=
  m.probes == 0 && replaceable terminal && errorOffset ≤ m.offset && m.committed &&
    m.inserted < env.settings.maxRecoveredErrors

/-- A terminal is missing: the first pass notes the failure, a repairing pass
stands in for it if that is possible. -/
def missing (env : Env V) (terminal : Expr V) : Eval V := fun m =>
  match env.pass with
  | .first => (.mismatched, m.recordFailure env m.offset (.terminal terminal))
  | .repair errorOffset =>
    if mayStandIn env errorOffset terminal m then
      if m.mayInsert then (.matched, m.insert env terminal)
      else (.mismatched, { m with wouldInsert := true })
    else (.mismatched, m)

/-- Match a terminal. -/
def terminal (env : Env V) (e : Expr V) : Eval V := fun m =>
  match consume? e m.cursor with
  | some cursor => (.matched, { m with cursor := cursor })
  | none => missing env e m

/-! ## Actions -/

/-- Run an action on what was matched. -/
def runAction (env : Env V) (action : Action V) (span : Span) (synthetic : Bool) : Eval V :=
  fun m =>
    let view : MatchView := ⟨env.source.text, span, synthetic, env.pass.isRepair⟩
    let (answer, space) := (action view).run ⟨m.stack, m.vars⟩
    let left :=
      { m with
        stack := space.stack
        vars := space.vars
        stats := { m.stats with actionsRun := m.stats.actionsRun + 1 } }
    match answer with
    | .ok true => (.matched, left)
    | .ok false => (.mismatched, left)
    | .error error =>
      let rule := (m.rule?.map env.grammar.ruleName).getD "?"
      (.aborted (.action rule (env.source.position span.stop) error), left)

/-! ## Sequences -/

/-- An item of a sequence: an action, which runs on what the item in front of it
matched, or an expression to be matched. -/
inductive Element (V : Type) where
  | act (action : Action V)
  | part (eval : Eval V)

/-- An expression as an item of a sequence, given its evaluation. -/
def Element.ofExpr (eval : Eval V) : Expr V → Element V
  | .action action => .act action
  | _ => .part eval

/-- Match the items of a sequence that started at an offset under a commitment.
Actions run on the previous match; anything else is committed if the sequence was
or has consumed input. -/
def runElements (env : Env V) (start : Nat) (inherited : Bool) :
    List (Element V) → Span → Bool → Eval V
  | [], _, _, m => (.matched, m)
  | .act action :: items, previous, synthetic, m =>
    match runAction env action previous synthetic m with
    | (.matched, left) => runElements env start inherited items previous synthetic left
    | outcome => outcome
  | .part eval :: items, _, _, m =>
    match eval { m with committed := inherited || start < m.offset } with
    | (.matched, left) =>
      let span : Span := ⟨m.offset, left.offset⟩
      runElements env start inherited items span (span.isEmpty && m.inserted < left.inserted)
        left
    | outcome => outcome

/-- Match items one after another. -/
def sequence (env : Env V) (items : List (Element V)) : Eval V :=
  keepingCommitment fun m =>
    runElements env m.offset m.committed items (Span.emptyAt m.offset) false m

/-! ## Choices -/

/-- Match the first of some alternatives that can be matched. -/
def alternatives : List (Eval V) → Eval V
  | [], m => (.mismatched, m)
  | eval :: items, m =>
    match eval m with
    | (.mismatched, left) =>
      if items.isEmpty then (.mismatched, left) else alternatives items left.backtrack
    | outcome => outcome

/-- Whether a choice is tried without repairs first. -/
def takesTwoRounds (env : Env V) (m : Machine V) : Bool :=
  env.pass.isRepair && m.probes == 0 && m.mayInsert

/-- The machine a first round starts with: repairs are switched off, and changes
of the stack can be taken back. -/
def openRound (m : Machine V) : Machine V :=
  { m with mayInsert := false, wouldInsert := false, stack := m.stack.openProbe }

/-- The machine after a first round: repairs are switched on again, and the note
of a refused repair is the one from before the round. -/
def closeRound (m left : Machine V) : Machine V :=
  { left with mayInsert := true, wouldInsert := m.wouldInsert }

/-- The machine after a first round whose changes of the stack are kept. -/
def keepRound (m left : Machine V) : Machine V :=
  let left := closeRound m left
  { left with stack := left.stack.commit }

/-- The machine after a first round whose changes of the stack are taken back. -/
def undoRound (m left : Machine V) : Machine V :=
  let left := closeRound m left
  { left with stack := left.stack.rollback }

/-- Match one of some alternatives.  A repairing pass tries all of them without
repairs first, so that a later alternative that matches the text as it is wins
over an earlier one that needs a repair; only if a repair was refused, all are
tried again with repairs. -/
def choice (env : Env V) (items : List (Eval V)) : Eval V := fun m =>
  if takesTwoRounds env m then
    match alternatives items (openRound m) with
    | (.mismatched, left) =>
      if left.wouldInsert then alternatives items (undoRound m left)
      else (.mismatched, keepRound m left)
    | (verdict, left) => (verdict, keepRound m left)
  else alternatives items m

/-! ## Repetitions and options -/

/-- Number of bytes between the reading head and the end of the text. -/
def remaining (env : Env V) (m : Machine V) : Nat :=
  env.source.size - m.offset

/-- Match uncommitted as long as it matches and consumes something. -/
def many (env : Env V) (eval : Eval V) (m : Machine V) : Verdict × Machine V :=
  match eval { m with committed := false } with
  | (.matched, left) =>
    if remaining env left < remaining env m then many env eval left else (.matched, left)
  | (.mismatched, left) => (.matched, left)
  | (.aborted error, left) => (.aborted error, left)
termination_by remaining env m

/-- Match as often as possible. -/
def star (env : Env V) (eval : Eval V) : Eval V :=
  keepingCommitment (many env eval)

/-- Match as often as possible, at least once; the first time keeps the commitment
of the surroundings. -/
def plus (env : Env V) (eval : Eval V) : Eval V :=
  keepingCommitment fun m =>
    match eval m with
    | (.matched, left) =>
      if remaining env left < remaining env m then many env eval left else (.matched, left)
    | outcome => outcome

/-- Match if possible, uncommitted. -/
def optional (eval : Eval V) : Eval V :=
  keepingCommitment fun m =>
    match eval { m with committed := false } with
    | (.mismatched, left) => (.matched, left)
    | outcome => outcome

/-! ## Lookahead -/

/-- The verdict of a lookahead: whether the expression matched as expected. -/
def aheadVerdict (expectMatch : Bool) : Verdict → Verdict
  | .matched => if expectMatch then .matched else .mismatched
  | .mismatched => if expectMatch then .mismatched else .matched
  | .aborted error => .aborted error

/-- The machine a lookahead starts with. -/
def openProbe (m : Machine V) : Machine V :=
  { m with stack := m.stack.openProbe, committed := false, probes := m.probes + 1 }

/-- The machine after a lookahead: nothing is consumed, no nodes are added, and
the changes of the stack are taken back. -/
def closeProbe (m left : Machine V) : Machine V :=
  { left with
    cursor := m.cursor
    nodes := m.nodes
    stack := left.stack.rollback
    committed := m.committed
    probes := left.probes - 1 }

/-- See whether something matches here. -/
def ahead (expectMatch : Bool) (eval : Eval V) : Eval V := fun m =>
  let (verdict, left) := eval (openProbe m)
  (aheadVerdict expectMatch verdict, closeProbe m left)

/-! ## Labels and rules -/

/-- Match under a label. -/
def labeled (env : Env V) (name : String) (eval : Eval V) : Eval V := fun m =>
  let (verdict, left) :=
    eval { m with nodes := [], scopes := (.label name, m.offset) :: m.scopes }
  let left := { left with scopes := left.scopes.tail }
  match verdict with
  | .matched => (.matched, left.addNode m name none)
  | .mismatched =>
    let left := { left with nodes := m.nodes }
    (.mismatched, left.recordNamed env m.offset m.frontier (.label name))
  | .aborted error => (.aborted error, left)

/-- The machine the body of a rule starts with. -/
def enterRule (id : RuleId) (rule : Rule V) (m : Machine V) : Machine V :=
  { m with
    vars := m.vars.enter
    nodes := []
    suppressed := if rule.options.suppresses then m.suppressed + 1 else m.suppressed
    depth := m.depth + 1
    rule? := some id
    scopes := (.rule id, m.offset) :: m.scopes
    wouldInsert := false
    stats :=
      { m.stats with
        ruleCalls := m.stats.ruleCalls + 1
        maxDepth := max m.stats.maxDepth (m.depth + 1) }
    events := .enter id m.offset :: m.events }

/-- The machine after the body of a rule, back in the surroundings of the rule. -/
def leaveRule (rule : Rule V) (m left : Machine V) : Machine V :=
  { left with
    vars := left.vars.leave
    suppressed := if rule.options.suppresses then left.suppressed - 1 else left.suppressed
    depth := left.depth - 1
    rule? := m.rule?
    scopes := left.scopes.tail
    wouldInsert := left.wouldInsert || m.wouldInsert }

/-- Add what a matched rule contributes to the parse tree: a node, or the nodes
below it. -/
def contribute (id : RuleId) (rule : Rule V) (m left : Machine V) : Machine V :=
  if rule.options.buildsNode then left.addNode m rule.name (some id)
  else { left with nodes := left.nodes ++ m.nodes }

/-- Remember that a rule did not match, unless repairs were made in it. -/
def remember (env : Env V) (key? : Option MemoKey) (wouldInsert : Bool) (m left : Machine V) :
    Machine V :=
  match key? with
  | none => left
  | some key =>
    if left.inserted = m.inserted then
      { left with memo := left.memo.insert env.settings.maxMemoEntries key wouldInsert }
    else left

/-- Match the body of a rule. -/
def body (env : Env V) (id : RuleId) (rule : Rule V) (key? : Option MemoKey) (eval : Eval V) :
    Eval V := fun m =>
  let (verdict, inside) := eval (enterRule id rule m)
  let left := leaveRule rule m inside
  match verdict with
  | .matched =>
    let left := contribute id rule m left
    (.matched, left.emit (.exit id left.offset true))
  | .mismatched =>
    let left := remember env key? inside.wouldInsert m { left with nodes := m.nodes }
    let left := left.recordNamed env m.offset m.frontier (.rule id)
    (.mismatched, left.emit (.exit id left.offset false))
  | .aborted error => (.aborted error, left)

/-- A rule is known not to match here. -/
def knownMismatch (env : Env V) (id : RuleId) (wouldInsert : Bool) (m : Machine V) : Machine V :=
  let left :=
    { m with
      wouldInsert := m.wouldInsert || wouldInsert
      stats := { m.stats with memoHits := m.stats.memoHits + 1 }
      events := .memoHit id m.offset :: m.events }
  left.recordNamed env m.offset m.frontier (.rule id)

/-- Match a rule, unless it is known not to match here. -/
def rule (env : Env V) (id : RuleId) (rule : Rule V) (eval : Eval V) : Eval V := fun m =>
  if env.settings.memoization && rule.options.memoMismatches then
    let key : MemoKey := ⟨id, m.offset, m.memoContext env⟩
    match m.memo.find? key with
    | some wouldInsert => (.mismatched, knownMismatch env id wouldInsert m)
    | none =>
      body env id rule (some key) eval
        { m with stats := { m.stats with memoMisses := m.stats.memoMisses + 1 } }
  else body env id rule none eval m

/-! ## Expressions -/

mutual

/-- The evaluation of an expression, given that of the rules it refers to. -/
def expr (env : Env V) (call : RuleId → Eval V) : Expr V → Machine V → Verdict × Machine V
  | .seq items, m => rewinding (sequence env (elements env call items)) m
  | .choice items, m => rewinding (choice env (evalAll env call items)) m
  | .star body, m => rewinding (star env (expr env call body)) m
  | .plus body, m => rewinding (plus env (expr env call body)) m
  | .optional body, m => rewinding (optional (expr env call body)) m
  | .notAhead body, m => rewinding (ahead false (expr env call body)) m
  | .ahead body, m => rewinding (ahead true (expr env call body)) m
  | .rule id, m => rewinding (call id) m
  | .label name body, m => rewinding (labeled env name (expr env call body)) m
  | .action action, m => rewinding (runAction env action (Span.emptyAt m.offset) false) m
  | e, m => rewinding (terminal env e) m

/-- The evaluations of alternatives. -/
def evalAll (env : Env V) (call : RuleId → Eval V) : List (Expr V) → List (Eval V)
  | [] => []
  | item :: items => expr env call item :: evalAll env call items

/-- The items of a sequence. -/
def elements (env : Env V) (call : RuleId → Eval V) : List (Expr V) → List (Element V)
  | [] => []
  | item :: items => Element.ofExpr (expr env call item) item :: elements env call items

end

/-- The invocation of a rule, given how many more invocations may be nested in
this one. -/
def invoke (env : Env V) : Nat → RuleId → Eval V
  | allowance, id => fun m =>
    match env.grammar.rule? id with
    | none => (.aborted (.unknownRoot id.index), m)
    | some definition =>
      match allowance with
      | 0 =>
        (.aborted (.recursionLimit env.settings.maxDepth (env.source.position m.offset)), m)
      | allowance + 1 => rule env id definition (expr env (invoke env allowance) definition.body) m

/-! ## Laws -/

/-- After a mismatch the reading head and the nodes are back where they were. -/
theorem rewinding_mismatched {eval : Eval V} {m left : Machine V}
    (h : rewinding eval m = (.mismatched, left)) :
    left.cursor = m.cursor ∧ left.nodes = m.nodes := by
  unfold rewinding at h
  split at h
  next => cases h; exact ⟨rfl, rfl⟩
  next other => exact (other left h).elim

/-- A lookahead leaves the reading head where it was. -/
@[simp] theorem ahead_cursor (expectMatch : Bool) (eval : Eval V) (m : Machine V) :
    (ahead expectMatch eval m).2.cursor = m.cursor :=
  rfl

/-- A lookahead adds no nodes. -/
@[simp] theorem ahead_nodes (expectMatch : Bool) (eval : Eval V) (m : Machine V) :
    (ahead expectMatch eval m).2.nodes = m.nodes :=
  rfl

/-- Alternatives are evaluated one by one. -/
@[simp] theorem evalAll_eq_map (env : Env V) (call : RuleId → Eval V) (items : List (Expr V)) :
    evalAll env call items = items.map (expr env call) := by
  induction items with
  | nil => rfl
  | cons item items ih => simp [evalAll, ih]

/-- The items of a sequence are evaluated one by one. -/
@[simp] theorem elements_eq_map (env : Env V) (call : RuleId → Eval V) (items : List (Expr V)) :
    elements env call items =
      items.map fun item => Element.ofExpr (expr env call item) item := by
  induction items with
  | nil => rfl
  | cons item items ih => simp [elements, ih]

end Eval

end Peg
