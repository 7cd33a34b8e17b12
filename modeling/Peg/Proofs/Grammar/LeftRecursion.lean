import Peg.Proofs.Grammar.WellFormed

/-!
# Left recursion that is reported

A report of left recursion names rules one of which leads to the next, by the rules that a
body may invoke before it has consumed input.  The walk they make comes back to its first rule
and meets no other one twice; and where nothing is reported, no walk comes back.

Main results:

- `Check.edge_eq_leadsFirst`: the searched graph has the edges between rules that lead to one
  another.
- `Check.exists_walk_of_leftRecursion`: the names of a report are those of the walk.
- `Check.leftRecursion_cycles`: what is reported is a simple cycle, and every cycle is found.
-/

namespace Peg

open Relation

variable {V : Type}

/-! ## Simple cycles -/

/-- A walk along edges that comes back to where it starts, and meets nothing twice but for
that. -/
structure SimpleCycle (edge : RuleId → RuleId → Prop) (walk : List RuleId) : Prop where
  two_le : 2 ≤ walk.length
  closed : walk.head? = walk.getLast?
  nodup : walk.dropLast.Nodup
  chain : walk.IsChain edge

namespace LeftRecursion

variable {graph : List (List RuleId)} {walk : List RuleId} {id : RuleId}

theorem IsCycle.simpleCycle (h : IsCycle graph walk) : SimpleCycle (Edge graph) walk := by
  rcases h with ⟨first, inner, rfl, hnodup, hchain⟩
  exact {
    two_le := by simp
    closed := by rw [List.getLast?_concat]; rfl
    nodup := by rwa [List.dropLast_concat]
    chain := hchain }

/-- Whatever is met on a walk leads on, but for its end. -/
theorem exists_edge_of_isChain {front : List RuleId} {last : RuleId}
    (h : (front ++ [last]).IsChain (Edge graph)) (hid : id ∈ front) :
    ∃ next, Edge graph id next := by
  rcases List.append_of_mem hid with ⟨before, after, rfl⟩
  rw [List.append_assoc] at h
  have hlater : (id :: (after ++ [last])).IsChain (Edge graph) := (List.isChain_append.1 h).2.1
  cases after with
  | nil => exact ⟨last, (List.isChain_cons_cons.1 hlater).1⟩
  | cons next after => exact ⟨next, (List.isChain_cons_cons.1 hlater).1⟩

theorem IsCycle.exists_edge (h : IsCycle graph walk) (hid : id ∈ walk) :
    ∃ next, Edge graph id next := by
  rcases h with ⟨first, inner, rfl, -, hchain⟩
  refine exists_edge_of_isChain hchain ?_
  rcases List.mem_append.1 hid with hfront | hlast
  · exact hfront
  · rw [List.mem_singleton.1 hlast]
    exact List.mem_cons_self

end LeftRecursion

namespace Check

variable {rules : List (Rule V)} {a b : RuleId}

/-! ## Rules that lead to one another -/

/-- The body of a rule may invoke another rule before it has consumed input, by which rules
are known to be nullable. -/
def LeadsFirst (rules : List (Rule V)) (a b : RuleId) : Prop :=
  ∃ rule, rules[a.index]? = some rule ∧ b ∈ rule.body.leads (Nullable.lookup (known rules))

/-- So it may by the clauses of the expressions. -/
theorem leadsFirst_iff : LeadsFirst rules a b ↔ Leads (Nullable.bodyIn (bodies rules)) a b := by
  constructor
  · rintro ⟨rule, hrule, hlead⟩
    refine ⟨rule.body, ?_, Nullable.mem_leads_rules_iff.1 hlead⟩
    rw [bodyIn_bodies, hrule]
    rfl
  · rintro ⟨body, hbody, hlead⟩
    rw [bodyIn_bodies, Option.map_eq_some_iff] at hbody
    rcases hbody with ⟨rule, hrule, rfl⟩
    exact ⟨rule, hrule, Nullable.mem_leads_rules_iff.2 hlead⟩

/-- The searched graph has the edges between rules that lead to one another, if the rules that
are referred to exist. -/
theorem edge_eq_leadsFirst (hrules : ∀ rule ∈ rules, ∀ next, .rule next ∈ rule.body.subterms →
    next.index < rules.length) :
    LeftRecursion.Edge (LeftRecursion.graph (bodies rules) (known rules)) = LeadsFirst rules := by
  funext a b
  exact propext ((edge_iff hrules).trans leadsFirst_iff.symm)

/-- A rule in which the search goes on has a name. -/
theorem exists_nameOf? (h : LeadsFirst rules a b) : ∃ name, nameOf? rules a = some name := by
  rcases h with ⟨rule, hrule, -⟩
  exact ⟨rule.name, by rw [nameOf?, hrule]; rfl⟩

/-! ## Reports -/

/-- A report of left recursion comes from the search. -/
theorem exists_cycle_of_leftRecursion {names : List String}
    (h : check rules = .error (.leftRecursion names)) :
    ∃ walk, cycle? rules = some walk ∧ names = walk.filterMap (nameOf? rules) := by
  unfold check at h
  split at h
  next fault hfault =>
      rcases List.exists_of_findSome?_eq_some hfault with ⟨rule, -, hrule⟩
      rcases List.exists_of_findSome?_eq_some hrule with ⟨e, -, hlocal⟩
      cases h
      cases e <;> simp [localFault?] at hlocal
  next =>
      split at h
      next => cases h
      next =>
          split at h
          next walk hwalk =>
              cases h
              exact ⟨walk, hwalk, rfl⟩
          next => cases h

/-- The names of a report are those of the rules on the walk, one for each. -/
theorem exists_walk_of_leftRecursion {names : List String}
    (hrules : ∀ rule ∈ rules, ∀ next, .rule next ∈ rule.body.subterms → next.index < rules.length)
    (h : check rules = .error (.leftRecursion names)) :
    ∃ walk, cycle? rules = some walk ∧ names.map some = walk.map (nameOf? rules) := by
  rcases exists_cycle_of_leftRecursion h with ⟨walk, hwalk, rfl⟩
  refine ⟨walk, hwalk, ?_⟩
  have hcycle := LeftRecursion.findCycle?_isCycle (LeftRecursion.ranged_graph _ _) hwalk
  have hnamed : ∀ id ∈ walk, (nameOf? rules id).map some = some (nameOf? rules id) := by
    intro id hid
    rcases hcycle.exists_edge hid with ⟨next, hedge⟩
    rw [edge_eq_leadsFirst hrules] at hedge
    rcases exists_nameOf? hedge with ⟨name, hname⟩
    rw [hname]
    rfl
  rw [List.map_filterMap, List.filterMap_eq_map_iff_forall_eq_some.2 hnamed]

/-- Among rules that refer to existing ones only, left recursion is found exactly if some rule
leads to itself, and what is found is a simple cycle of rules each of which may invoke the next
one where it starts itself.  A report names the rules of the cycle. -/
theorem leftRecursion_cycles
    (hrules : ∀ rule ∈ rules, ∀ next, .rule next ∈ rule.body.subterms → next.index < rules.length) :
    (cycle? rules = none ↔ ∀ id, ¬ TransGen (LeadsFirst rules) id id) ∧
      (∀ walk, cycle? rules = some walk → SimpleCycle (LeadsFirst rules) walk ∧
        walk.IsChain (Leads (Nullable.bodyIn (bodies rules)))) ∧
      ∀ names, check rules = .error (.leftRecursion names) →
        ∃ walk, cycle? rules = some walk ∧ names.map some = walk.map (nameOf? rules) := by
  have hranged := LeftRecursion.ranged_graph (bodies rules) (known rules)
  refine ⟨?_, fun walk hwalk => ?_, fun names => exists_walk_of_leftRecursion hrules⟩
  · rw [← edge_eq_leadsFirst hrules]
    exact LeftRecursion.findCycle?_eq_none_iff hranged
  · have hcycle := (LeftRecursion.findCycle?_isCycle hranged hwalk).simpleCycle
    rw [edge_eq_leadsFirst hrules] at hcycle
    exact ⟨hcycle, hcycle.chain.imp fun _ _ => leadsFirst_iff.1⟩

/-- Two rules that lead to one another, the second one behind an optional sign. -/
theorem leftRecursion_cycles_signed :
    let rules : List (Rule Unit) :=
      [⟨"A", .choice [.seq [.rule ⟨1⟩, .char 'x'], .char 'a'], {}⟩,
        ⟨"B", .seq [.optional (.char '-'), .rule ⟨0⟩], {}⟩]
    (∀ rule ∈ rules, ∀ next, .rule next ∈ rule.body.subterms → next.index < rules.length) ∧
      SimpleCycle (LeadsFirst rules) [⟨0⟩, ⟨1⟩, ⟨0⟩] ∧
      check rules = .error (.leftRecursion ["A", "B", "A"]) := by
  intro rules
  have hrules : ∀ rule ∈ rules, ∀ next, .rule next ∈ rule.body.subterms →
      next.index < rules.length := by
    simp [rules, Expr.subterms, Expr.subtermsOf]
  have hwalk : cycle? rules = some [⟨0⟩, ⟨1⟩, ⟨0⟩] := by decide
  exact ⟨hrules, ((leftRecursion_cycles hrules).2.1 _ hwalk).1, by decide⟩

end Check

end Peg
