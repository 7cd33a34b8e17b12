import Peg.Grammar.Nullable

/-!
# Left recursion

A rule is left recursive if it can be invoked again before it has consumed
input.  The rules that an expression may invoke first form a graph, which is
searched depth first for a cycle.

Main results:

- `Expr.seqLeads_cons`: a sequence leads with its first item, and with the later
  ones as long as those in front of them are nullable.
- `LeftRecursion.mem_successors`: which edges the searched graph has.
-/

namespace Peg

variable {V : Type}

namespace Expr

mutual

/-- The rules an expression may invoke before it has consumed input, given which
rules are nullable. -/
def leads (known : RuleId → Bool) : Expr V → List RuleId
  | rule id => [id]
  | seq items => seqLeads known items
  | choice items => choiceLeads known items
  | star body => body.leads known
  | plus body => body.leads known
  | optional body => body.leads known
  | notAhead body => body.leads known
  | ahead body => body.leads known
  | label _ body => body.leads known
  | _ => []

/-- The rules that expressions in sequence may invoke first. -/
def seqLeads (known : RuleId → Bool) : List (Expr V) → List RuleId
  | [] => []
  | item :: items =>
    item.leads known ++ if item.nullable known then seqLeads known items else []

/-- The rules that any of some expressions may invoke first. -/
def choiceLeads (known : RuleId → Bool) : List (Expr V) → List RuleId
  | [] => []
  | item :: items => item.leads known ++ choiceLeads known items

end

/-- A sequence leads with its first item, and with the later ones if that item is
nullable. -/
theorem seqLeads_cons (known : RuleId → Bool) (item : Expr V) (items : List (Expr V)) :
    seqLeads known (item :: items) =
      item.leads known ++ if item.nullable known then seqLeads known items else [] := by
  simp [seqLeads]

end Expr

namespace LeftRecursion

/-- Rules by number in ascending order, each once. -/
def ascending (count : Nat) (ids : List RuleId) : List RuleId :=
  ((List.range count).map RuleId.mk).filter (ids.contains ·)

/-- The graph of rules: from each rule to those its body may invoke first. -/
def graph (bodies : List (Expr V)) (known : List Bool) : List (List RuleId) :=
  bodies.map fun body => ascending bodies.length (body.leads (Nullable.lookup known))

/-- The successors of a rule in a graph. -/
def successors (graph : List (List RuleId)) (id : RuleId) : List RuleId :=
  graph.getD id.index []

/-- The part of a path, newest rule first, that starts where a rule was met
before, closed by that rule. -/
def cycle (path : List RuleId) (again : RuleId) : List RuleId :=
  again :: (path.takeWhile (· ≠ again)).reverse ++ [again]

/-- Search from a rule below a path of rules, newest first.  The result is a
cycle, or the rules from which none can be reached.  The depth is bounded by the
number of rules, as a path holds no rule twice. -/
def explore (graph : List (List RuleId)) :
    Nat → List RuleId → List RuleId → RuleId → Except (List RuleId) (List RuleId)
  | 0, _, finished, _ => .ok finished
  | depth + 1, path, finished, id => do
    let finished ← (successors graph id).foldlM
      (fun finished next =>
        if (id :: path).contains next then .error (cycle (id :: path) next)
        else if finished.contains next then .ok finished
        else explore graph depth (id :: path) finished next)
      finished
    return id :: finished

/-- Search from a rule unless that has been done. -/
def exploreFrom (graph : List (List RuleId)) (finished : List RuleId) (index : Nat) :
    Except (List RuleId) (List RuleId) :=
  if finished.contains ⟨index⟩ then .ok finished
  else explore graph graph.length [] finished ⟨index⟩

/-- A cycle of a graph, if it has one. -/
def findCycle? (graph : List (List RuleId)) : Option (List RuleId) :=
  match (List.range graph.length).foldlM (exploreFrom graph) [] with
  | .error cycle => some cycle
  | .ok _ => none

@[simp] theorem mem_ascending {count : Nat} {ids : List RuleId} {id : RuleId} :
    id ∈ ascending count ids ↔ id.index < count ∧ id ∈ ids := by
  cases id
  simp [ascending]

/-- Which edges the searched graph has. -/
theorem mem_successors {bodies : List (Expr V)} {known : List Bool} {a b : RuleId} :
    b ∈ successors (graph bodies known) a ↔
      ∃ body, bodies[a.index]? = some body ∧ b.index < bodies.length ∧
        b ∈ body.leads (Nullable.lookup known) := by
  simp only [successors, graph, List.getD_eq_getElem?_getD, List.getElem?_map]
  cases h : bodies[a.index]? with
  | none => simp
  | some body => simp

end LeftRecursion

end Peg
