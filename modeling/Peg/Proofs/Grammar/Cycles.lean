import Mathlib.Data.List.Chain
import Mathlib.Data.List.Nodup
import Mathlib.Data.List.Perm.Subperm
import Mathlib.Logic.Relation
import Peg.Grammar.LeftRecursion

/-!
# The search for cycles

The search goes through a graph depth first.  The rules on the path to where it is are
all different, so there are no more of them than there are rules, and the search never
runs out of depth.  A rule is finished when all that follows it is: then no cycle goes
through it, as it would have to come back by the path.

Main results:

- `findCycle?_isCycle`: what the search reports is a cycle that meets no rule twice.
- `findCycle?_eq_none_iff`: the search reports nothing exactly if there is no cycle.
-/

namespace Peg.LeftRecursion

open Relation

/-! ## Paths and cycles -/

/-- A rule is followed by another in a graph. -/
def Edge (graph : List (List RuleId)) (a b : RuleId) : Prop :=
  b ∈ successors graph a

/-- A walk along the edges that comes back to where it starts, and meets no rule twice
but for that. -/
def IsCycle (graph : List (List RuleId)) (walk : List RuleId) : Prop :=
  ∃ first inner, walk = first :: inner ++ [first] ∧ (first :: inner).Nodup ∧
    walk.IsChain (Edge graph)

/-- A path along the edges, newest rule first. -/
structure Path (graph : List (List RuleId)) (path : List RuleId) : Prop where
  nodup : path.Nodup
  chain : path.IsChain fun next id => Edge graph id next
  lt_length : ∀ id ∈ path, id.index < graph.length

variable {graph : List (List RuleId)} {path finished : List RuleId} {id again : RuleId}

/-- A rule of the graph is a path. -/
theorem path_singleton (h : id.index < graph.length) : Path graph [id] :=
  ⟨List.nodup_singleton id, .singleton id, by simpa using h⟩

/-- A path goes on to a rule that it has not met. -/
theorem Path.cons (h : Path graph (id :: path)) {next : RuleId} (hedge : Edge graph id next)
    (hlt : next.index < graph.length) (hnew : next ∉ id :: path) :
    Path graph (next :: id :: path) :=
  ⟨List.nodup_cons.2 ⟨hnew, h.nodup⟩, .cons_cons hedge h.chain,
    List.forall_mem_cons.2 ⟨hlt, h.lt_length⟩⟩

/-- A path has no more rules than the graph. -/
theorem Path.length_le (h : Path graph path) : path.length ≤ graph.length := by
  have hnodup : (path.map RuleId.index).Nodup :=
    h.nodup.map fun a b hab => by cases a; cases b; exact congrArg _ hab
  have hsub : path.map RuleId.index ⊆ List.range graph.length := by
    intro index hindex
    rcases List.mem_map.1 hindex with ⟨id, hid, rfl⟩
    exact List.mem_range.2 (h.lt_length id hid)
  simpa using (List.subperm_of_subset hnodup hsub).length_le

/-- A list up to a member of it. -/
theorem exists_eq_takeWhile_append (h : again ∈ path) :
    ∃ back, path = path.takeWhile (· ≠ again) ++ again :: back := by
  induction path with
  | nil => cases h
  | cons id path ih =>
      by_cases hsame : id = again
      · subst hsame
        exact ⟨path, by simp⟩
      · rcases ih (List.mem_of_ne_of_mem (Ne.symm hsame) h) with ⟨back, hback⟩
        refine ⟨back, ?_⟩
        rw [List.takeWhile_cons_of_pos (by simpa using hsame), List.cons_append, ← hback]

/-- A path that comes back to one of its rules closes a cycle. -/
theorem Path.isCycle (h : Path graph (id :: path)) (hedge : Edge graph id again)
    (hagain : again ∈ id :: path) : IsCycle graph (cycle (id :: path) again) := by
  rcases exists_eq_takeWhile_append hagain with ⟨back, hback⟩
  generalize hfront : (id :: path).takeWhile (· ≠ again) = front at hback
  have hpart : front ++ [again] <+: id :: path := ⟨back, by simp [hback]⟩
  have hforward : (again :: front.reverse).IsChain (Edge graph) := by
    have hfront := List.IsChain.prefix h.chain hpart
    simpa using List.isChain_reverse.2 hfront
  refine ⟨again, front.reverse, ?_, ?_, ?_⟩
  · rw [cycle, hfront]
  · have hnodup := List.nodup_reverse.2 (hpart.sublist.nodup h.nodup)
    simpa using hnodup
  · -- The newest rule of the path is the last one of the walk before it is closed.
    rw [cycle, hfront]
    refine List.isChain_append.2 ⟨hforward, .singleton again, fun last hlast next hnext => ?_⟩
    have hhead : (again :: front.reverse).getLast? = some id := by
      have hfirst : (front ++ [again]).head? = some id := by
        cases front with
        | nil => exact congrArg some (List.cons_eq_cons.1 hback).1.symm
        | cons first front => exact congrArg some (List.cons_eq_cons.1 hback).1.symm
      rw [← hfirst]
      simp [← List.head?_reverse]
    rw [hhead] at hlast
    cases hlast
    cases hnext
    exact hedge

/-- A walk leads from where it starts to where it ends. -/
theorem transGen_of_isChain {first last : RuleId} {inner : List RuleId}
    (h : (first :: inner ++ [last]).IsChain (Edge graph)) :
    TransGen (Edge graph) first last := by
  induction inner generalizing first with
  | nil => exact .single (List.isChain_cons_cons.1 h).1
  | cons next inner ih =>
      rcases List.isChain_cons_cons.1 h with ⟨hedge, h⟩
      exact .head hedge (ih h)

/-- A rule on a cycle comes back to itself. -/
theorem IsCycle.transGen {walk : List RuleId} (h : IsCycle graph walk) :
    ∃ id, TransGen (Edge graph) id id := by
  rcases h with ⟨first, inner, rfl, -, hchain⟩
  exact ⟨first, transGen_of_isChain hchain⟩

/-! ## Finished rules -/

/-- The edges of a graph lead to rules of it. -/
def Ranged (graph : List (List RuleId)) : Prop :=
  ∀ a b, Edge graph a b → b.index < graph.length

/-- Rules with all that follows them, none of them on a cycle. -/
structure Settled (graph : List (List RuleId)) (finished : List RuleId) : Prop where
  closed : ∀ id ∈ finished, ∀ next, Edge graph id next → next ∈ finished
  acyclic : ∀ id ∈ finished, ¬ TransGen (Edge graph) id id

/-- A search below a path has finished more rules, and none of the path. -/
structure Advances (graph : List (List RuleId)) (path finished after : List RuleId) : Prop where
  settled : Settled graph after
  subset : finished ⊆ after
  fresh : ∀ id ∈ path, id ∉ after

variable {after : List RuleId}

theorem ranged_graph {V : Type} (bodies : List (Expr V)) (known : List Bool) :
    Ranged (LeftRecursion.graph bodies known) := by
  intro a b hedge
  rcases mem_successors.1 hedge with ⟨body, -, hlt, -⟩
  simpa [LeftRecursion.graph] using hlt

/-- Where no rule is finished, nothing is left to follow. -/
theorem settled_nil (graph : List (List RuleId)) : Settled graph [] :=
  ⟨nofun, nofun⟩

/-- All that can be reached from finished rules is finished. -/
theorem Settled.mem_of_reflTransGen (h : Settled graph finished) {a b : RuleId}
    (ha : a ∈ finished) (hab : ReflTransGen (Edge graph) a b) : b ∈ finished := by
  induction hab with
  | refl => exact ha
  | tail _ hedge ih => exact h.closed _ ih _ hedge

/-- A rule that is not finished is finished with what follows it. -/
theorem Settled.cons (h : Settled graph finished) (hid : id ∉ finished)
    (hnexts : ∀ next, Edge graph id next → next ∈ finished) : Settled graph (id :: finished) where
  closed := by
    intro a ha next hedge
    rcases List.mem_cons.1 ha with rfl | ha
    · exact List.mem_cons_of_mem _ (hnexts next hedge)
    · exact List.mem_cons_of_mem _ (h.closed a ha next hedge)
  acyclic := by
    intro a ha hloop
    rcases List.mem_cons.1 ha with rfl | ha
    · rcases TransGen.head'_iff.1 hloop with ⟨next, hedge, hback⟩
      exact hid (h.mem_of_reflTransGen (hnexts next hedge) hback)
    · exact h.acyclic a ha hloop

/-- A search that finishes nothing. -/
theorem Advances.refl (h : Settled graph finished) (hfresh : ∀ id ∈ path, id ∉ finished) :
    Advances graph path finished finished :=
  ⟨h, List.Subset.refl _, hfresh⟩

/-- A search behind another. -/
theorem Advances.trans {last : List RuleId} (h₁ : Advances graph path finished after)
    (h₂ : Advances graph path after last) : Advances graph path finished last :=
  ⟨h₂.settled, List.Subset.trans h₁.subset h₂.subset, h₂.fresh⟩

/-! ## The search -/

/-- What a search that is to finish some rules comes to: a cycle, or these are finished. -/
def Finds (graph : List (List RuleId)) (path finished ids : List RuleId) :
    Except (List RuleId) (List RuleId) → Prop
  | .error walk => IsCycle graph walk
  | .ok after => Advances graph path finished after ∧ ids ⊆ after

/-- One rule after another is finished, if each of them is. -/
theorem finds_foldlM {search : List RuleId → RuleId → Except (List RuleId) (List RuleId)}
    (ids : List RuleId)
    (hsearch : ∀ finished, ∀ id ∈ ids, Settled graph finished → (∀ id ∈ path, id ∉ finished) →
      Finds graph path finished [id] (search finished id))
    (hsettled : Settled graph finished) (hfresh : ∀ id ∈ path, id ∉ finished) :
    Finds graph path finished ids (ids.foldlM search finished) := by
  induction ids generalizing finished with
  | nil => exact ⟨.refl hsettled hfresh, List.nil_subset _⟩
  | cons id ids ih =>
      have hfirst := hsearch finished id List.mem_cons_self hsettled hfresh
      rw [List.foldlM_cons]
      generalize search finished id = found at hfirst
      cases found with
      | error walk => exact hfirst
      | ok after =>
          rcases hfirst with ⟨hadvances, hid⟩
          have hlater := ih
            (fun finished id hid => hsearch finished id (List.mem_cons_of_mem _ hid))
            hadvances.settled hadvances.fresh
          change Finds graph path finished (id :: ids) (ids.foldlM search after)
          generalize ids.foldlM search after = found at hlater
          cases found with
          | error walk => exact hlater
          | ok last =>
              rcases hlater with ⟨hlater, hids⟩
              have hid : id ∈ last := hlater.subset (hid List.mem_cons_self)
              exact ⟨hadvances.trans hlater, List.cons_subset.2 ⟨hid, hids⟩⟩

/-- A rule that may follow closes a cycle, is finished already or is searched in turn. -/
theorem finds_next {next : RuleId} (found : Except (List RuleId) (List RuleId))
    (hpath : Path graph (id :: path)) (hedge : Edge graph id next)
    (hsettled : Settled graph finished) (hfresh : ∀ again ∈ id :: path, again ∉ finished)
    (hfound : next ∉ id :: path → next ∉ finished →
      Finds graph (id :: path) finished [next] found) :
    Finds graph (id :: path) finished [next]
      (if (id :: path).contains next then .error (cycle (id :: path) next)
        else if finished.contains next then .ok finished
        else found) := by
  split
  next hmet => exact hpath.isCycle hedge (List.contains_iff_mem.1 hmet)
  next hnew =>
      rw [List.contains_iff_mem] at hnew
      split
      next hdone =>
          rw [List.contains_iff_mem] at hdone
          exact ⟨.refl hsettled hfresh, List.cons_subset.2 ⟨hdone, List.nil_subset _⟩⟩
      next hopen => exact hfound hnew (mt List.contains_iff_mem.2 hopen)

/-- The search below a path finds a cycle or finishes the rule, if the depth is enough for
the longest path. -/
theorem finds_explore (hranged : Ranged graph) {depth : Nat} (hpath : Path graph (id :: path))
    (hdepth : graph.length ≤ depth + path.length) (hsettled : Settled graph finished)
    (hfresh : ∀ again ∈ id :: path, again ∉ finished) :
    Finds graph path finished [id] (explore graph depth path finished id) := by
  induction depth generalizing path finished id with
  | zero =>
      have hlong := hpath.length_le
      simp only [List.length_cons] at hlong
      omega
  | succ depth ih =>
      have hnexts := finds_foldlM (successors graph id)
        (fun finished next hedge hsettled hfresh =>
          finds_next (explore graph depth (id :: path) finished next) hpath hedge hsettled hfresh
            fun hnew hopen =>
              ih (hpath.cons hedge (hranged id next hedge) hnew)
                (by simp only [List.length_cons]; omega) hsettled
                (List.forall_mem_cons.2 ⟨hopen, hfresh⟩))
        hsettled hfresh
      rw [explore]
      generalize List.foldlM (m := Except (List RuleId)) _ finished _ = found at hnexts
      cases found with
      | error walk => exact hnexts
      | ok after =>
          rcases hnexts with ⟨hadvances, hnexts⟩
          rcases List.forall_mem_cons.1 hadvances.fresh with ⟨hid, hfresh⟩
          have hnew : ∀ again ∈ path, again ∉ id :: after := by
            intro again hagain hmem
            rcases List.mem_cons.1 hmem with rfl | hmem
            · exact (List.nodup_cons.1 hpath.nodup).1 hagain
            · exact hfresh again hagain hmem
          exact ⟨⟨hadvances.settled.cons hid fun next hedge => hnexts hedge,
            List.subset_cons_of_subset _ hadvances.subset, hnew⟩, by simp⟩

/-- A search from a rule finishes it with all that follows, or finds a cycle. -/
theorem finds_exploreFrom (hranged : Ranged graph) {index : Nat} (hindex : index < graph.length)
    (hsettled : Settled graph finished) :
    Finds graph [] finished [⟨index⟩] (exploreFrom graph finished index) := by
  unfold exploreFrom
  split
  next hdone =>
      rw [List.contains_iff_mem] at hdone
      exact ⟨.refl hsettled nofun, List.cons_subset.2 ⟨hdone, List.nil_subset _⟩⟩
  next hopen =>
      refine finds_explore hranged (path_singleton hindex) (by simp) hsettled fun id hid => ?_
      rw [List.mem_singleton.1 hid]
      exact mt List.contains_iff_mem.2 hopen

/-- The search from every rule in turn finds a cycle or finishes all of them. -/
theorem finds_all (hranged : Ranged graph) :
    Finds graph [] [] ((List.range graph.length).map RuleId.mk)
      ((List.range graph.length).foldlM (exploreFrom graph) []) := by
  rw [← List.foldlM_map (f := RuleId.mk)
    (g := fun finished id => exploreFrom graph finished id.index)]
  refine finds_foldlM _ (fun finished id hid hsettled _ => ?_) (settled_nil graph) nofun
  rcases List.mem_map.1 hid with ⟨index, hindex, rfl⟩
  exact finds_exploreFrom hranged (List.mem_range.1 hindex) hsettled

/-! ## What it reports -/

/-- What the search reports is a cycle that meets no rule twice. -/
theorem findCycle?_isCycle (hranged : Ranged graph) {walk : List RuleId}
    (h : findCycle? graph = some walk) : IsCycle graph walk := by
  have hfinds := finds_all hranged
  rw [findCycle?] at h
  split at h
  next found hfound =>
      rw [hfound] at hfinds
      exact Option.some.inj h ▸ hfinds
  next => cases h

/-- The search reports nothing exactly if no rule reaches itself. -/
theorem findCycle?_eq_none_iff (hranged : Ranged graph) :
    findCycle? graph = none ↔ ∀ id, ¬ TransGen (Edge graph) id id := by
  cases hfound : findCycle? graph with
  | some walk =>
      rcases (findCycle?_isCycle hranged hfound).transGen with ⟨id, hloop⟩
      simpa using ⟨id, hloop⟩
  | none =>
      have hfinds := finds_all hranged
      rw [findCycle?] at hfound
      split at hfound
      next => cases hfound
      next after hdone =>
          rw [hdone] at hfinds
          rcases hfinds with ⟨hadvances, hall⟩
          refine iff_of_true rfl fun id hloop => ?_
          have hid : id ∈ (List.range graph.length).map RuleId.mk := by
            rcases TransGen.tail'_iff.1 hloop with ⟨last, -, hedge⟩
            simpa using ⟨id.index, hranged last id hedge, rfl⟩
          exact hadvances.settled.acyclic id (hall hid) hloop

end Peg.LeftRecursion
