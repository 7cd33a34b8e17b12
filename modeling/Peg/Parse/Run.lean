import Peg.Parse.Eval
import Peg.Parse.Outcome

/-!
# Running a parse

A parse matches a rule against a text in a first pass.  If the rule does not
match, or stops before the end of the text, the parse has failed at the error
frontier; with repairs allowed, a second pass then starts afresh.

A run is a parse that may not have started yet.  Starting it again after it has
finished changes nothing.

Main results:

- `execute_of_rule?_eq_none`: a parse needs a rule to start from.
- `Run.start_start`: a finished run stays as it is.
- `Run.state_eq_ready_iff`: a run is ready until it is started.
-/

namespace Peg

open Text

variable {V : Type}

/-! ## Passes -/

/-- Match a rule from the start of the text. -/
def runPass (env : Env V) (root : RuleId) : Verdict × Machine V :=
  let m := Machine.start env
  let m :=
    match env.pass with
    | .first => m
    | .repair errorOffset => m.emit (.recoveryPass errorOffset)
  Eval.invoke env env.settings.maxDepth root m

/-- The node for the whole match: the only finished node if it covers the match,
or a node with the name of the rule over all finished nodes. -/
def rootNode (name : String) (m : Machine V) : Tree :=
  let span : Span := ⟨0, m.offset⟩
  let wrapper := Tree.node name span none m.nodes.reverse
  match m.nodes with
  | [node] => if node.span = span then node else wrapper
  | _ => wrapper

/-- The parse tree after a pass, if one is asked for. -/
def parseTree? (env : Env V) (root : RuleId) (m : Machine V) : Option Tree :=
  if env.settings.buildParseTree then some (rootNode (env.grammar.ruleName root) m) else none

/-! ## Parses -/

/-- The result of a parse and what was observed of it. -/
structure Execution (V : Type) where
  /-- The answer, or why there is none. -/
  result : Except ParseError (Outcome V)
  /-- What was observed, in order. -/
  events : List Event

/-- The answer of a first pass that matched the whole text. -/
def successOf (env : Env V) (root : RuleId) (m : Machine V) : Success V where
  stop := env.source.position m.offset
  values := m.stack.toList
  tree? := parseTree? env root m
  stats := m.stats

/-- What a repairing pass that matched made of the text. -/
def recoveredOf (env : Env V) (root : RuleId) (m : Machine V) : Recovered V where
  stop := env.source.position m.offset
  complete := m.cursor.atEnd
  values := m.stack.toList
  gaps := m.gaps.reverse
  tree? := parseTree? env root m

/-- The answer of a first pass that failed with the frontier of a machine, given
what became of the repairing pass. -/
def failureOf (env : Env V) (m : Machine V) (recovered? : Option (Recovered V))
    (stats : Stats) : Failure V where
  position := env.source.position m.frontier.position
  expected := m.frontier.labels env.grammar
  found? := env.source.charAt? m.frontier.position
  recovered? := recovered?
  stats := stats

/-- A repairing pass after a first pass that failed.  If an action fails in it,
nothing of it remains but what was observed. -/
def repair (env : Env V) (root : RuleId) (m : Machine V) :
    Option (Recovered V) × Stats × List Event :=
  let env := { env with pass := .repair m.frontier.position }
  match runPass env root with
  | (.matched, left) =>
    (some (recoveredOf env root left), m.stats.merge left.stats, left.events.reverse)
  | (.mismatched, left) => (none, m.stats.merge left.stats, left.events.reverse)
  | (.aborted _, left) => (none, m.stats, left.events.reverse)

/-- The answer after a first pass that failed. -/
def fail (env : Env V) (root : RuleId) (m : Machine V) : Execution V :=
  if env.settings.recovery then
    let (recovered?, stats, events) := repair env root m
    ⟨.ok (.failed (failureOf env m recovered? stats)), m.events.reverse ++ events⟩
  else ⟨.ok (.failed (failureOf env m none m.stats)), m.events.reverse⟩

/-- Match a rule of a grammar against a text. -/
def execute (grammar : Grammar V) (settings : Settings) (source : Source) (root : RuleId) :
    Execution V :=
  match grammar.rule? root with
  | none => ⟨.error (.unknownRoot root.index), []⟩
  | some _ =>
    let env : Env V := ⟨grammar, source, settings, .first⟩
    match runPass env root with
    | (.matched, m) =>
      if m.cursor.atEnd then ⟨.ok (.succeeded (successOf env root m)), m.events.reverse⟩
      else fail env root (m.recordFailure env m.offset .endOfInput)
    | (.mismatched, m) => fail env root m
    | (.aborted error, m) => ⟨.error error, m.events.reverse⟩

/-- A parse needs a rule to start from. -/
theorem execute_of_rule?_eq_none {grammar : Grammar V} {root : RuleId}
    (h : grammar.rule? root = none) (settings : Settings) (source : Source) :
    execute grammar settings source root = ⟨.error (.unknownRoot root.index), []⟩ := by
  simp [execute, h]

/-! ## Runs -/

/-- How far a run has come. -/
inductive RunState where
  | ready
  | succeeded
  | failed
  | aborted
  deriving DecidableEq, Repr

/-- The state that a result leaves a run in. -/
def RunState.ofResult : Except ParseError (Outcome V) → RunState
  | .ok (.succeeded _) => succeeded
  | .ok (.failed _) => failed
  | .error _ => aborted

/-- A parse that may not have started yet. -/
structure Run (V : Type) where
  /-- The grammar. -/
  grammar : Grammar V
  /-- The settings. -/
  settings : Settings
  /-- The text. -/
  source : Source
  /-- The rule to start from. -/
  root : RuleId
  /-- What became of the parse, once it has been started. -/
  execution? : Option (Execution V)

namespace Run

/-- A run that has not started yet. -/
def new (grammar : Grammar V) (settings : Settings) (source : Source) (root : RuleId) : Run V :=
  ⟨grammar, settings, source, root, none⟩

/-- How far the run has come. -/
def state (run : Run V) : RunState :=
  match run.execution? with
  | none => .ready
  | some execution => .ofResult execution.result

/-- What has been observed of the run. -/
def events (run : Run V) : List Event :=
  (run.execution?.map Execution.events).getD []

/-- Run the parse, unless that has been done. -/
def start (run : Run V) : Run V :=
  match run.execution? with
  | some _ => run
  | none =>
    { run with execution? := some (execute run.grammar run.settings run.source run.root) }

/-- The result of the parse, which is run if that has not been done. -/
def result (run : Run V) : Except ParseError (Outcome V) :=
  match run.execution? with
  | some execution => execution.result
  | none => (execute run.grammar run.settings run.source run.root).result

/-- A finished run stays as it is. -/
@[simp] theorem start_start (run : Run V) : run.start.start = run.start := by
  cases h : run.execution? <;> simp [start, h]

/-- Starting a run does not change its result. -/
@[simp] theorem result_start (run : Run V) : run.start.result = run.result := by
  cases h : run.execution? <;> simp [start, result, h]

/-- A run is ready until it is started. -/
theorem state_eq_ready_iff (run : Run V) : run.state = .ready ↔ run.execution? = none := by
  unfold state
  split
  next h => simp [h]
  next execution h =>
    simp only [h, reduceCtorEq, iff_false]
    unfold RunState.ofResult
    split <;> simp

end Run

/-! ## Batches -/

/-- Texts to be parsed, each under a name. -/
abbrev Batch : Type :=
  List (String × List Char)

/-- The result for one text of a batch. -/
structure BatchResult (V : Type) where
  /-- The name of the text. -/
  id : String
  /-- The result of its parse. -/
  result : Except ParseError (Outcome V)

namespace BatchResult

/-- Whether the text was parsed successfully. -/
def isOk (entry : BatchResult V) : Bool :=
  match entry.result with
  | .ok outcome => outcome.isSuccess
  | .error _ => false

/-- The values of a successful parse, topmost last. -/
def values? (entry : BatchResult V) : Option (List V) :=
  match entry.result with
  | .ok (.succeeded success) => some success.values
  | _ => none

end BatchResult

/-- Parse every text of a batch as it is, each by itself. -/
def parseBatch (grammar : Grammar V) (settings : Settings) (root : RuleId) (batch : Batch) :
    List (BatchResult V) :=
  batch.map fun (id, text) => ⟨id, (execute grammar settings (.plain text) root).result⟩

end Peg
