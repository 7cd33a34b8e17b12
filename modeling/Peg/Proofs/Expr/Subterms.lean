import Peg.Expr.Basic

/-!
# Parts and references of expressions

Which expressions an expression is made of, and which rules it refers to, inside
and outside of lookahead.

Main results:

- `Expr.mem_subterms_iff`: the subterms are the expression and the subterms of its
  direct parts.
- `Expr.Admits.part`: the actions in a part are of the kind of those in the whole.
- `Expr.Mentions.mem_subterms`: a rule that is mentioned is a subterm.
-/

namespace Peg.Expr

variable {V : Type}

theorem mem_subtermsOf_iff {x : Expr V} {items : List (Expr V)} :
    x ∈ subtermsOf items ↔ ∃ item ∈ items, x ∈ item.subterms := by
  induction items with
  | nil => simp [subtermsOf]
  | cons item items ih => simp [subtermsOf, ih]

/-- A part of an expression, at any depth, is the expression itself or a part of one of its
children. -/
theorem mem_subterms_iff {x e : Expr V} :
    x ∈ e.subterms ↔ x = e ∨ ∃ part ∈ e.children, x ∈ part.subterms := by
  cases e <;> simp [subterms, children, mem_subtermsOf_iff]

/-- The subterms of a part are subterms of the whole. -/
theorem mem_subterms_of_mem_children {x part e : Expr V} (hpart : part ∈ e.children)
    (hx : x ∈ part.subterms) : x ∈ e.subterms :=
  mem_subterms_iff.2 (Or.inr ⟨part, hpart, hx⟩)

/-- All actions in an expression are of one kind. -/
def Admits (e : Expr V) (allows : Action V → Prop) : Prop :=
  ∀ action, .action action ∈ e.subterms → allows action

/-- The parts of an expression hold no other actions. -/
theorem Admits.part {e part : Expr V} {allows : Action V → Prop} (h : e.Admits allows)
    (hpart : part ∈ e.children) : part.Admits allows :=
  fun action hmem => h action (mem_subterms_of_mem_children hpart hmem)

/-- What is allowed of all actions may be weakened. -/
theorem Admits.imp {e : Expr V} {allows allows' : Action V → Prop} (h : e.Admits allows)
    (himp : ∀ action, allows action → allows' action) : e.Admits allows' :=
  fun action hmem => himp action (h action hmem)

/-- An action that stands alone is allowed. -/
theorem Admits.allows {act : Action V} {allows : Action V → Prop}
    (h : (action act).Admits allows) : allows act :=
  h act (mem_subterms_self _)

/-- Whether the parts of an expression are matched ahead of the reading head. -/
def looksAhead : Expr V → Bool
  | notAhead _ | ahead _ => true
  | _ => false

/-- An expression refers to a rule, from inside of lookahead or not, given where the
expression itself stands. -/
inductive Mentions : Bool → Expr V → Bool → RuleId → Prop
  | rule (probing : Bool) (id : RuleId) : Mentions probing (.rule id) probing id
  | part {probing inside : Bool} {e part : Expr V} {id : RuleId} (hpart : part ∈ e.children)
      (hmentions : Mentions (probing || e.looksAhead) part inside id) :
      Mentions probing e inside id

/-- A mentioned rule is referred to somewhere in the expression. -/
theorem Mentions.mem_subterms {probing inside : Bool} {e : Expr V} {id : RuleId}
    (h : Mentions probing e inside id) : .rule id ∈ e.subterms := by
  induction h with
  | rule probing id => exact mem_subterms_self _
  | part hpart hmentions ih => exact mem_subterms_of_mem_children hpart ih

/-- Without lookahead in it an expression refers to rules from where it stands. -/
theorem Mentions.inside_eq {probing inside : Bool} {e : Expr V} {id : RuleId}
    (h : Mentions probing e inside id) (hnone : ∀ x ∈ e.subterms, x.looksAhead = false) :
    inside = probing := by
  induction h with
  | rule probing id => rfl
  | @part probing inside e part id hpart hmentions ih =>
      rw [ih fun x hx => hnone x (mem_subterms_of_mem_children hpart hx)]
      rw [hnone e (mem_subterms_self e), Bool.or_false]

end Peg.Expr
