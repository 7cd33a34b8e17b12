import Peg.Proofs.Expr.Terminal
import Peg.Proofs.Grammar.Accepted

/-!
# Which expressions match nothing

Whether an expression may match without consuming input, and which rules it may invoke
before it has consumed any, by the clauses of the expressions: the least relations that
are closed under them.  The sweeps over all bodies find the first relation, and with it
the second can be read off a body.

Main results:

- `Nullable.nullable_rules_iff`: the sweeps find exactly the expressions that may match
  nothing.
- `Nullable.mem_leads_rules_iff`: the rules that an expression leads with are exactly
  those that it may invoke first.
-/

namespace Peg

variable {V : Type}

namespace Expr

/-! ## The relations -/

/-- An expression may match without consuming input, given the bodies of the rules. -/
inductive Vanishes (body? : RuleId → Option (Expr V)) : Expr V → Prop
  | literal (ignoreCase : Bool) : Vanishes body? (literal "" ignoreCase)
  | endOfInput : Vanishes body? endOfInput
  | empty : Vanishes body? empty
  | action (program : Action V) : Vanishes body? (action program)
  | star (body : Expr V) : Vanishes body? (star body)
  | optional (body : Expr V) : Vanishes body? (optional body)
  | notAhead (body : Expr V) : Vanishes body? (notAhead body)
  | ahead (body : Expr V) : Vanishes body? (ahead body)
  | plus {body : Expr V} (h : Vanishes body? body) : Vanishes body? (plus body)
  | label (name : String) {body : Expr V} (h : Vanishes body? body) :
      Vanishes body? (label name body)
  | seq {items : List (Expr V)} (h : ∀ item ∈ items, Vanishes body? item) :
      Vanishes body? (seq items)
  | choice {items : List (Expr V)} {item : Expr V} (hmem : item ∈ items)
      (h : Vanishes body? item) : Vanishes body? (choice items)
  | rule {id : RuleId} {body : Expr V} (hbody : body? id = some body)
      (h : Vanishes body? body) : Vanishes body? (rule id)

/-- An expression may invoke a rule before it has consumed input, given the bodies of the
rules. -/
inductive LeadsTo (body? : RuleId → Option (Expr V)) : Expr V → RuleId → Prop
  | rule (id : RuleId) : LeadsTo body? (rule id) id
  | seq {front back : List (Expr V)} {item : Expr V} {id : RuleId}
      (hfront : ∀ part ∈ front, part.Vanishes body?) (h : LeadsTo body? item id) :
      LeadsTo body? (seq (front ++ item :: back)) id
  | choice {items : List (Expr V)} {item : Expr V} {id : RuleId} (hmem : item ∈ items)
      (h : LeadsTo body? item id) : LeadsTo body? (choice items) id
  | star {body : Expr V} {id : RuleId} (h : LeadsTo body? body id) : LeadsTo body? (star body) id
  | plus {body : Expr V} {id : RuleId} (h : LeadsTo body? body id) : LeadsTo body? (plus body) id
  | optional {body : Expr V} {id : RuleId} (h : LeadsTo body? body id) :
      LeadsTo body? (optional body) id
  | notAhead {body : Expr V} {id : RuleId} (h : LeadsTo body? body id) :
      LeadsTo body? (notAhead body) id
  | ahead {body : Expr V} {id : RuleId} (h : LeadsTo body? body id) :
      LeadsTo body? (ahead body) id
  | label (name : String) {body : Expr V} {id : RuleId} (h : LeadsTo body? body id) :
      LeadsTo body? (label name body) id

variable {body? : RuleId → Option (Expr V)} {known : RuleId → Bool} {items : List (Expr V)}
variable {id : RuleId}

/-! ## Nullable expressions -/

/-- What is nullable may match nothing, if the rules known to be nullable may. -/
theorem vanishes_of_nullable (hknown : ∀ id, known id = true → (rule id).Vanishes body?)
    {e : Expr V} (h : e.nullable known = true) : e.Vanishes body? := by
  induction e using induction_children with
  | step e ih =>
      cases e with
      | char | range | oneOf | any | nothing => cases h
      | literal text ignoreCase =>
          obtain rfl : text = "" := by simpa [nullable] using h
          exact .literal ignoreCase
      | endOfInput => exact .endOfInput
      | empty => exact .empty
      | seq items =>
          rw [nullable, nullableIn_eq_all, List.all_eq_true] at h
          exact .seq fun item hitem => ih item hitem (h item hitem)
      | choice items =>
          rw [nullable, nullableAmong_eq_any, List.any_eq_true] at h
          rcases h with ⟨item, hitem, h⟩
          exact .choice hitem (ih item hitem h)
      | star body => exact .star body
      | plus body => exact .plus (ih body List.mem_cons_self h)
      | optional body => exact .optional body
      | notAhead body => exact .notAhead body
      | ahead body => exact .ahead body
      | rule id => exact hknown id h
      | label name body => exact .label name (ih body List.mem_cons_self h)
      | action program => exact .action program

/-- What may match nothing is nullable, if every rule with a nullable body is known to
be. -/
theorem Vanishes.nullable
    (hclosed : ∀ id body, body? id = some body → body.nullable known = true → known id = true)
    {e : Expr V} (h : e.Vanishes body?) : e.nullable known = true := by
  induction h with
  | literal | endOfInput | empty | action | star | optional | notAhead | ahead => rfl
  | plus h ih => exact ih
  | label name h ih => exact ih
  | seq h ih =>
      rw [Expr.nullable, nullableIn_eq_all, List.all_eq_true]
      exact ih
  | choice hmem h ih =>
      rw [Expr.nullable, nullableAmong_eq_any, List.any_eq_true]
      exact ⟨_, hmem, ih⟩
  | rule hbody h ih => exact hclosed _ _ hbody ih

/-- A terminal that accepts nothing at all is nullable. -/
theorem Accepts.nullable {e : Expr V} {rest : List Char} (h : e.Accepts [] rest)
    (known : RuleId → Bool) : e.nullable known = true := by
  generalize hconsumed : ([] : List Char) = consumed at h
  cases h with
  | char | range | oneOf | any => cases hconsumed
  | literal text => simpa [Expr.nullable] using hconsumed.symm
  | literalIgnoringCase rest hread =>
      subst hconsumed
      have htext := List.forall₂_nil_left_iff.1 hread
      simpa [Expr.nullable] using htext
  | endOfInput | empty => rfl

/-! ## Leading rules -/

/-- A sequence leads with what is nullable up to the first item that is not, and with
that item. -/
theorem mem_seqLeads_iff :
    id ∈ seqLeads known items ↔
      ∃ front item back, items = front ++ item :: back ∧
        (∀ part ∈ front, part.nullable known = true) ∧ id ∈ item.leads known := by
  induction items with
  | nil => simp [seqLeads]
  | cons first items ih =>
      rw [seqLeads_cons, List.mem_append]
      constructor
      · rintro (hfirst | hlater)
        · exact ⟨[], first, items, rfl, List.forall_mem_nil _, hfirst⟩
        · split at hlater
          next hnullable =>
              rcases ih.1 hlater with ⟨front, item, back, rfl, hfront, hitem⟩
              exact ⟨first :: front, item, back, rfl,
                List.forall_mem_cons.2 ⟨hnullable, hfront⟩, hitem⟩
          next => cases hlater
      · rintro ⟨front, item, back, heq, hfront, hitem⟩
        cases front with
        | nil =>
            obtain ⟨rfl, rfl⟩ := List.cons_eq_cons.1 heq
            exact .inl hitem
        | cons part front =>
            obtain ⟨rfl, rfl⟩ := List.cons_eq_cons.1 heq
            rcases List.forall_mem_cons.1 hfront with ⟨hfirst, hfront⟩
            rw [if_pos hfirst]
            exact .inr (ih.2 ⟨front, item, back, rfl, hfront, hitem⟩)

/-- A choice leads with what any of its alternatives leads with. -/
theorem mem_choiceLeads_iff :
    id ∈ choiceLeads known items ↔ ∃ item ∈ items, id ∈ item.leads known := by
  induction items with
  | nil => simp [choiceLeads]
  | cons item items ih => simp [choiceLeads, ih]

/-- An expression leads with the rules that it may invoke first. -/
theorem mem_leads_iff (hknown : ∀ e : Expr V, e.nullable known = true ↔ e.Vanishes body?)
    {e : Expr V} : id ∈ e.leads known ↔ e.LeadsTo body? id := by
  induction e using induction_children with
  | step e ih =>
      cases e with
      | char | range | oneOf | literal | any | endOfInput | empty | nothing | action =>
          simp only [leads, List.not_mem_nil, false_iff]
          nofun
      | seq items =>
          rw [leads, mem_seqLeads_iff]
          constructor
          · rintro ⟨front, item, back, rfl, hfront, hitem⟩
            refine .seq (fun part hpart => (hknown part).1 (hfront part hpart)) ?_
            exact (ih item (List.mem_append_right _ List.mem_cons_self)).1 hitem
          · intro h
            generalize heq : seq items = whole at h
            cases h with
            | @seq front back item id hfront h =>
                obtain rfl : items = front ++ item :: back := by simpa using heq
                refine ⟨front, item, back, rfl, fun part hpart => ?_, ?_⟩
                · exact (hknown part).2 (hfront part hpart)
                · exact (ih item (List.mem_append_right _ List.mem_cons_self)).2 h
            | _ => cases heq
      | choice items =>
          rw [leads, mem_choiceLeads_iff]
          constructor
          · rintro ⟨item, hitem, h⟩
            exact .choice hitem ((ih item hitem).1 h)
          · rintro (_ | _ | ⟨hitem, h⟩)
            exact ⟨_, hitem, (ih _ hitem).2 h⟩
      | star body | plus body | optional body | notAhead body | ahead body | label name body =>
          rw [leads, ih body List.mem_cons_self]
          constructor
          · intro h
            constructor
            exact h
          · rintro ⟨⟩
            assumption
      | rule next =>
          simp only [leads, List.mem_singleton]
          constructor
          · rintro rfl
            exact .rule id
          · rintro ⟨⟩
            rfl

end Expr

namespace Nullable

open Peg.Expr

/-! ## What the sweeps find -/

/-- The body of a rule, as far as there are bodies. -/
def bodyIn (bodies : List (Expr V)) (id : RuleId) : Option (Expr V) :=
  bodies[id.index]?

/-- Only rules that may match nothing are known to be nullable. -/
def Sound (bodies : List (Expr V)) (known : List Bool) : Prop :=
  ∀ id, lookup known id = true → (rule id).Vanishes (bodyIn bodies)

variable {bodies : List (Expr V)} {known : List Bool}

/-- Where no rule is known to be nullable, nothing is claimed. -/
theorem sound_replicate (bodies : List (Expr V)) (count : Nat) :
    Sound bodies (List.replicate count false) := by
  intro id h
  rw [lookup, List.getD_eq_getElem?_getD, List.getElem?_replicate] at h
  split at h <;> cases h

/-- A body that is nullable by what is known may match nothing, and so may its rule. -/
theorem Sound.mark (h : Sound bodies known) {entry : Expr V × Nat}
    (hentry : bodies[entry.2]? = some entry.1) : Sound bodies (mark known entry) := by
  unfold Nullable.mark
  split
  next hnullable =>
      intro id hid
      by_cases hindex : id.index = entry.2
      · have hbody : bodyIn bodies id = some entry.1 := by rw [bodyIn, hindex, hentry]
        exact .rule hbody (vanishes_of_nullable h hnullable)
      · refine h id ?_
        rwa [lookup, List.getD_eq_getElem?_getD, List.getElem?_set_ne (Ne.symm hindex),
          ← List.getD_eq_getElem?_getD] at hid
  next => exact h

/-- Rules that are marked one after another are nullable. -/
theorem Sound.foldl_mark (h : Sound bodies known) {entries : List (Expr V × Nat)}
    (hentries : ∀ entry ∈ entries, bodies[entry.2]? = some entry.1) :
    Sound bodies (entries.foldl Nullable.mark known) := by
  induction entries generalizing known with
  | nil => exact h
  | cons entry entries ih =>
      rcases List.forall_mem_cons.1 hentries with ⟨hfirst, hrest⟩
      exact ih (h.mark hfirst) hrest

/-- Sweeps mark only rules that are nullable. -/
theorem Sound.settle (h : Sound bodies known) (sweeps : Nat) :
    Sound bodies (settle bodies sweeps known) := by
  induction sweeps generalizing known with
  | zero => exact h
  | succ sweeps ih =>
      have hsweep : Sound bodies (sweep bodies known) :=
        h.foldl_mark fun entry hentry => List.mem_zipIdx_iff_getElem?.1 hentry
      rw [Nullable.settle]
      split
      next => exact h
      next => exact ih hsweep

/-- The sweeps find exactly the expressions that may match nothing. -/
theorem nullable_rules_iff (bodies : List (Expr V)) (e : Expr V) :
    e.nullable (lookup (rules bodies)) = true ↔ e.Vanishes (bodyIn bodies) :=
  ⟨vanishes_of_nullable ((sound_replicate bodies bodies.length).settle bodies.length),
    Vanishes.nullable fun _ _ hbody => lookup_rules hbody⟩

/-- The rules that an expression leads with are those that it may invoke first. -/
theorem mem_leads_rules_iff {bodies : List (Expr V)} {e : Expr V} {id : RuleId} :
    id ∈ e.leads (lookup (rules bodies)) ↔ e.LeadsTo (bodyIn bodies) id :=
  mem_leads_iff (nullable_rules_iff bodies)

end Nullable

end Peg
