import Peg.Action.Program
import Peg.Parse.Error
import Peg.Parse.Event
import Peg.Parse.Frontier
import Peg.Parse.Memo
import Peg.Parse.Settings
import Peg.Parse.Stats
import Peg.Tree

/-!
# The state of a parse

A text is parsed in one pass, or in two: if the first pass fails, a second one
may repair the text, standing in for terminals that are missing.  The environment
holds what stays the same during a pass, the machine what changes.

Repairs are made only where something has been matched already.  The machine
keeps a commitment, which says whether the surroundings of the current
expression have consumed input, and a switch for repairs.  A repair that is
refused only because of the switch leaves a note.

Main results:

- `Machine.addNode_of_suppressed`: while nodes are suppressed none is added.
- `Machine.inserted_insert`: a repair adds one gap.
-/

namespace Peg

open Text

/-! ## Environment -/

/-- The passes over a text. -/
inductive Pass where
  /-- The text is matched as it is. -/
  | first
  /-- Missing terminals may be stood in for, at or behind the offset at which the
  first pass failed. -/
  | repair (errorOffset : Nat)
  deriving DecidableEq, Repr

/-- Whether a pass makes repairs. -/
def Pass.isRepair : Pass → Bool
  | first => false
  | repair _ => true

/-- What stays the same during a pass. -/
structure Env (V : Type) where
  /-- The grammar. -/
  grammar : Grammar V
  /-- The text. -/
  source : Source
  /-- The settings. -/
  settings : Settings
  /-- The pass. -/
  pass : Pass

/-- A missing terminal that was stood in for. -/
structure Gap where
  /-- Where it is missing. -/
  position : Position
  /-- What is missing: the rule or label that starts there, or the terminal. -/
  expected : String
  deriving DecidableEq, Repr, Inhabited

/-- The message of a gap. -/
def Gap.message (gap : Gap) : String :=
  "missing " ++ gap.expected ++ " at " ++ toString gap.position

/-! ## Machine -/

/-- What changes during a pass. -/
structure Machine (V : Type) where
  /-- The reading head. -/
  cursor : Cursor
  /-- The value stack. -/
  stack : Stack V
  /-- The variables of the rule invocations in progress. -/
  vars : Variables V
  /-- The furthest failures. -/
  frontier : Frontier V
  /-- The mismatches that are remembered. -/
  memo : Memo
  /-- The finished nodes below the innermost unfinished one, newest first. -/
  nodes : List Tree
  /-- For how many reasons no nodes are built at present. -/
  suppressed : Nat
  /-- Number of rule invocations in progress. -/
  depth : Nat
  /-- Number of lookaheads in progress. -/
  probes : Nat
  /-- The innermost rule in progress. -/
  rule? : Option RuleId
  /-- The rules and labels in progress with the offsets they started at, innermost
  first. -/
  scopes : List (Expected V × Nat)
  /-- Whether the surroundings of the current expression have consumed input. -/
  committed : Bool
  /-- Whether repairs are switched on. -/
  mayInsert : Bool
  /-- Whether a repair was refused only because repairs are switched off. -/
  wouldInsert : Bool
  /-- The repairs made, newest first. -/
  gaps : List Gap
  /-- What has been done. -/
  stats : Stats
  /-- What has been observed, latest first. -/
  events : List Event

namespace Machine

variable {V : Type}

/-- The machine at the start of a pass. -/
def start (env : Env V) : Machine V where
  cursor := env.source.cursor
  stack := Stack.empty
  vars := Locals.empty
  frontier := Frontier.empty
  memo := Memo.empty
  nodes := []
  suppressed := if env.settings.buildParseTree then 0 else 1
  depth := 0
  probes := 0
  rule? := none
  scopes := []
  committed := false
  mayInsert := true
  wouldInsert := false
  gaps := []
  stats := Stats.empty
  events := []

/-- The offset of the reading head. -/
def offset (m : Machine V) : Nat :=
  m.cursor.offset

/-- Number of repairs made. -/
def inserted (m : Machine V) : Nat :=
  m.gaps.length

/-- Observe something. -/
def emit (m : Machine V) (event : Event) : Machine V :=
  { m with events := event :: m.events }

/-- Whether mismatches count for the frontier: in the first pass, outside
lookahead. -/
def recording (env : Env V) (m : Machine V) : Bool :=
  !env.pass.isRepair && m.probes == 0

/-- Note that something failed at an offset. -/
def recordFailure (env : Env V) (m : Machine V) (offset : Nat) (expected : Expected V) :
    Machine V :=
  if m.recording env then { m with frontier := m.frontier.record offset expected } else m

/-- Note that a rule or label failed which started at an offset, when the
frontier was `before`. -/
def recordNamed (env : Env V) (m : Machine V) (start : Nat) (before : Frontier V)
    (expected : Expected V) : Machine V :=
  if m.recording env then { m with frontier := m.frontier.recordNamed start before expected }
  else m

/-- What besides rule and offset decides whether a rule matches now. -/
def memoContext (env : Env V) (m : Machine V) : MemoContext :=
  if env.pass.isRepair then
    .repair m.committed m.mayInsert (m.probes != 0) m.inserted
  else .plain

/-- The name under which a terminal that is missing here is reported: that of
the innermost rule or label if it starts here, or its own. -/
def missingName (env : Env V) (m : Machine V) (terminal : Expr V) : String :=
  match m.scopes with
  | (scope, start) :: _ =>
    if start = m.offset then scope.describe env.grammar
    else (Expected.terminal terminal).describe env.grammar
  | [] => (Expected.terminal terminal).describe env.grammar

/-- Stand in for a terminal. -/
def insert (env : Env V) (m : Machine V) (terminal : Expr V) : Machine V :=
  { m with
    gaps := ⟨env.source.position m.offset, m.missingName env terminal⟩ :: m.gaps
    stats := { m.stats with recoveredErrors := m.stats.recoveredErrors + 1 }
    events := .inserted m.offset :: m.events }

/-- Move on to the next alternative of a choice. -/
def backtrack (m : Machine V) : Machine V :=
  { m with
    stats := { m.stats with backtracks := m.stats.backtracks + 1 }
    events := .backtrack m.offset :: m.events }

/-- The machine with one node put after the nodes of an outer machine, unless
nodes are suppressed; the nodes of this machine go below the new one. -/
def addNode (m outer : Machine V) (label : String) (rule? : Option RuleId) : Machine V :=
  { m with
    nodes :=
      if m.suppressed = 0 then
        .node label ⟨outer.offset, m.offset⟩ rule? m.nodes.reverse :: outer.nodes
      else outer.nodes }

/-- While nodes are suppressed none is added. -/
theorem addNode_of_suppressed {m : Machine V} (h : m.suppressed ≠ 0) (outer : Machine V)
    (label : String) (rule? : Option RuleId) :
    (m.addNode outer label rule?).nodes = outer.nodes := by
  simp [addNode, h]

/-- A repair adds one gap. -/
@[simp] theorem inserted_insert (env : Env V) (m : Machine V) (terminal : Expr V) :
    (m.insert env terminal).inserted = m.inserted + 1 := by
  simp [insert, inserted]

end Machine

end Peg
