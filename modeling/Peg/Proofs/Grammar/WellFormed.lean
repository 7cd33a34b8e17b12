import Peg.Proofs.Grammar.Cycles
import Peg.Proofs.Grammar.Nullability

/-!
# Well-formed rules

What it means for the bodies of some number of rules to be sound, by the clauses of the
expressions alone.  The check of the rules comes to the same: its sweeps find the
expressions that may match nothing, and its search finds the cycles.

Main results:

- `Check.check_eq_ok_iff_wellFormed`: rules pass the check exactly if they are
  well-formed.
- `Check.acyclic_of_check`: among rules that pass it none leads with itself.
-/

namespace Peg

open Relation

variable {V : Type}

/-! ## Well-formedness -/

/-- A rule may invoke another before it has consumed input, given the bodies. -/
def Leads (body? : RuleId → Option (Expr V)) (a b : RuleId) : Prop :=
  ∃ body, body? a = some body ∧ body.LeadsTo body? b

/-- The bodies of some number of rules are sound. -/
structure WellFormed (count : Nat) (body? : RuleId → Option (Expr V)) : Prop where
  /-- The rules that are referred to exist. -/
  references : ∀ id body, body? id = some body →
    ∀ next, .rule next ∈ body.subterms → next.index < count
  /-- No range of characters is empty. -/
  ranges : ∀ id body, body? id = some body →
    ∀ low high, .range low high ∈ body.subterms → low ≤ high
  /-- No repetition is of an expression that may match nothing. -/
  loops : ∀ id body, body? id = some body →
    ∀ inner, .star inner ∈ body.subterms ∨ .plus inner ∈ body.subterms → ¬ inner.Vanishes body?
  /-- No rule can get back to itself before it has consumed input. -/
  acyclic : ∀ id, ¬ TransGen (Leads body?) id id

/-- A rule that an expression may invoke first is referred to in it. -/
theorem Expr.LeadsTo.mem_subterms {body? : RuleId → Option (Expr V)} {e : Expr V} {id : RuleId}
    (h : e.LeadsTo body? id) : .rule id ∈ e.subterms := by
  induction h with
  | rule id => exact mem_subterms_self _
  | seq hfront h ih =>
      exact mem_subterms_of_mem_children (List.mem_append_right _ List.mem_cons_self) ih
  | choice hmem h ih => exact mem_subterms_of_mem_children hmem ih
  | star h ih | plus h ih | optional h ih | notAhead h ih | ahead h ih | label name h ih =>
      exact mem_subterms_of_mem_children List.mem_cons_self ih

namespace Check

variable {rules : List (Rule V)}

/-! ## What the check finds -/

theorem bodyIn_bodies (rules : List (Rule V)) (id : RuleId) :
    Nullable.bodyIn (bodies rules) id = (rules[id.index]?).map Rule.body :=
  List.getElem?_map ..

/-- What holds of the body of every rule, whichever way the rules are gone through. -/
theorem forall_body_iff {p : Expr V → Prop} :
    (∀ id body, Nullable.bodyIn (bodies rules) id = some body → p body) ↔
      ∀ rule ∈ rules, p rule.body := by
  constructor
  · intro h rule hrule
    rcases List.getElem?_of_mem hrule with ⟨index, hindex⟩
    exact h ⟨index⟩ rule.body (by rw [bodyIn_bodies, hindex]; rfl)
  · intro h id body hbody
    rw [bodyIn_bodies, Option.map_eq_some_iff] at hbody
    rcases hbody with ⟨rule, hrule, rfl⟩
    exact h rule (List.mem_of_getElem? hrule)

/-- A repetition of a nullable expression is in a body exactly if one of an expression
that may match nothing is. -/
theorem hasEmptyLoop_eq_false_iff {body : Expr V} :
    hasEmptyLoop (Nullable.lookup (known rules)) body = false ↔
      ∀ inner, .star inner ∈ body.subterms ∨ .plus inner ∈ body.subterms →
        ¬ inner.Vanishes (Nullable.bodyIn (bodies rules)) := by
  rw [hasEmptyLoop, List.any_eq_false]
  constructor
  · rintro h inner (hstar | hplus)
    · exact mt (Nullable.nullable_rules_iff _ inner).2 (h _ hstar)
    · exact mt (Nullable.nullable_rules_iff _ inner).2 (h _ hplus)
  · intro h e he
    cases e with
    | star inner => exact mt (Nullable.nullable_rules_iff _ inner).1 (h inner (.inl he))
    | plus inner => exact mt (Nullable.nullable_rules_iff _ inner).1 (h inner (.inr he))
    | _ => exact Bool.false_ne_true

/-- The searched graph has the edges of the relation, if the rules that are referred to
exist. -/
theorem edge_iff (hrules : ∀ rule ∈ rules, ∀ next, .rule next ∈ rule.body.subterms →
    next.index < rules.length) {a b : RuleId} :
    LeftRecursion.Edge (LeftRecursion.graph (bodies rules) (known rules)) a b ↔
      Leads (Nullable.bodyIn (bodies rules)) a b := by
  rw [LeftRecursion.Edge, LeftRecursion.mem_successors]
  constructor
  · rintro ⟨body, hbody, -, hlead⟩
    exact ⟨body, hbody, Nullable.mem_leads_rules_iff.1 hlead⟩
  · rintro ⟨body, hbody, hlead⟩
    refine ⟨body, hbody, ?_, Nullable.mem_leads_rules_iff.2 hlead⟩
    have hmem : ∃ rule ∈ rules, rule.body = body := List.mem_map.1 (List.mem_of_getElem? hbody)
    rcases hmem with ⟨rule, hrule, rfl⟩
    rw [bodies, List.length_map]
    exact hrules rule hrule b hlead.mem_subterms

/-- The search finds nothing exactly if no rule can get back to itself. -/
theorem cycle?_eq_none_iff (hrules : ∀ rule ∈ rules, ∀ next, .rule next ∈ rule.body.subterms →
    next.index < rules.length) :
    cycle? rules = none ↔ ∀ id, ¬ TransGen (Leads (Nullable.bodyIn (bodies rules))) id id := by
  have hedge : LeftRecursion.Edge (LeftRecursion.graph (bodies rules) (known rules)) =
      Leads (Nullable.bodyIn (bodies rules)) := by
    funext a b
    exact propext (edge_iff hrules)
  rw [cycle?, LeftRecursion.findCycle?_eq_none_iff (LeftRecursion.ranged_graph _ _), hedge]

/-- Rules pass the check exactly if they are well-formed. -/
theorem check_eq_ok_iff_wellFormed :
    check rules = .ok () ↔ WellFormed rules.length (Nullable.bodyIn (bodies rules)) := by
  rw [check_eq_ok_iff]
  constructor
  · rintro ⟨hlocal, hloops, hcycle⟩
    have hrules : ∀ rule ∈ rules, ∀ next, .rule next ∈ rule.body.subterms →
        next.index < rules.length := fun rule hrule next hnext =>
      (localFault?_eq_none_iff.1 (hlocal rule hrule _ hnext)).1 next rfl
    constructor
    · exact forall_body_iff.2 hrules
    · exact forall_body_iff.2 fun rule hrule low high hrange =>
        (localFault?_eq_none_iff.1 (hlocal rule hrule _ hrange)).2 low high rfl
    · exact forall_body_iff.2 fun rule hrule => hasEmptyLoop_eq_false_iff.1 (hloops rule hrule)
    · exact (cycle?_eq_none_iff hrules).1 hcycle
  · intro h
    have hrules := forall_body_iff.1 h.references
    refine ⟨fun rule hrule e he => localFault?_eq_none_iff.2 ⟨?_, ?_⟩, ?_, ?_⟩
    · rintro next rfl
      exact hrules rule hrule next he
    · rintro low high rfl
      exact forall_body_iff.1 h.ranges rule hrule low high he
    · exact fun rule hrule => hasEmptyLoop_eq_false_iff.2 (forall_body_iff.1 h.loops rule hrule)
    · exact (cycle?_eq_none_iff hrules).2 h.acyclic

/-- Among rules that pass the check none leads with itself. -/
theorem acyclic_of_check (h : check rules = .ok ()) (id : RuleId) :
    ¬ TransGen (fun a b => ∃ rule, rules[a.index]? = some rule ∧
      b ∈ rule.body.leads (Nullable.lookup (known rules))) id id := by
  intro hloop
  refine (check_eq_ok_iff_wellFormed.1 h).acyclic id (hloop.lift (fun a => a) ?_)
  rintro a b ⟨rule, hrule, hlead⟩
  refine ⟨rule.body, ?_, Nullable.mem_leads_rules_iff.1 hlead⟩
  rw [bodyIn_bodies, hrule]
  rfl

end Check

end Peg
