import Mathlib.Data.List.Forall2
import Peg.Grammar.LeftRecursion
import Peg.Proofs.Expr.Subterms

/-!
# Dropped labels

A label names an expression.  Some labels of an expression may be dropped, each giving way
to what it stands around.  An item of a sequence that is an action is treated in a way of
its own, so which items may take the place of which is left open here.

Main results:

- `Expr.Unlabels.induct`: induction on what becomes of an expression.
- `Expr.Unlabels.nullable_eq` and `Expr.Unlabels.leads_eq`: the analyses of a grammar see
  through labels.
- `Expr.Unlabels.exists_of_mem_subterms`: nothing is left that was not there before.
-/

namespace Peg

variable {V : Type}

namespace Expr

/-! ## Expressions -/

/-- Any labels of an expression are dropped, as long as each item of a sequence gives way
to one that fits in its place. -/
inductive Unlabels (fits : Expr V → Expr V → Prop) : Expr V → Expr V → Prop
  | terminal {e : Expr V} (hterminal : e.isTerminal = true) : Unlabels fits e e
  | rule (id : RuleId) : Unlabels fits (.rule id) (.rule id)
  | action (action : Action V) : Unlabels fits (.action action) (.action action)
  | seq {items items' : List (Expr V)} (hitems : List.Forall₂ (Unlabels fits) items items')
      (hfits : List.Forall₂ fits items items') : Unlabels fits (.seq items) (.seq items')
  | choice {items items' : List (Expr V)} (hitems : List.Forall₂ (Unlabels fits) items items') :
      Unlabels fits (.choice items) (.choice items')
  | star {body body' : Expr V} (hbody : Unlabels fits body body') :
      Unlabels fits (.star body) (.star body')
  | plus {body body' : Expr V} (hbody : Unlabels fits body body') :
      Unlabels fits (.plus body) (.plus body')
  | optional {body body' : Expr V} (hbody : Unlabels fits body body') :
      Unlabels fits (.optional body) (.optional body')
  | notAhead {body body' : Expr V} (hbody : Unlabels fits body body') :
      Unlabels fits (.notAhead body) (.notAhead body')
  | ahead {body body' : Expr V} (hbody : Unlabels fits body body') :
      Unlabels fits (.ahead body) (.ahead body')
  | keep (name : String) {body body' : Expr V} (hbody : Unlabels fits body body') :
      Unlabels fits (.label name body) (.label name body')
  | drop (name : String) {body body' : Expr V} (hbody : Unlabels fits body body') :
      Unlabels fits (.label name body) body'

/-- Two items of sequences are of one kind: both are actions, or neither is. -/
def SameKind (item item' : Expr V) : Prop :=
  item'.isAction = item.isAction

variable {fits : Expr V → Expr V → Prop} {e e' : Expr V}

/-- Induction on what becomes of an expression, with the items of sequences and choices
taken one by one. -/
@[elab_as_elim]
theorem Unlabels.induct {motive : (e e' : Expr V) → Unlabels fits e e' → Prop}
    (terminal : ∀ {e : Expr V} (h : e.isTerminal = true), motive e e (.terminal h))
    (rule : ∀ id, motive (.rule id) (.rule id) (.rule id))
    (action : ∀ action, motive (.action action) (.action action) (.action action))
    (seq : ∀ {items items' : List (Expr V)} (hitems : List.Forall₂ (Unlabels fits) items items')
      (hfits : List.Forall₂ fits items items'),
      List.Forall₂ (fun item item' => ∃ h, motive item item' h) items items' →
      motive (.seq items) (.seq items') (.seq hitems hfits))
    (choice : ∀ {items items' : List (Expr V)}
      (hitems : List.Forall₂ (Unlabels fits) items items'),
      List.Forall₂ (fun item item' => ∃ h, motive item item' h) items items' →
      motive (.choice items) (.choice items') (.choice hitems))
    (star : ∀ {body body' : Expr V} (h : Unlabels fits body body'), motive body body' h →
      motive (.star body) (.star body') (.star h))
    (plus : ∀ {body body' : Expr V} (h : Unlabels fits body body'), motive body body' h →
      motive (.plus body) (.plus body') (.plus h))
    (optional : ∀ {body body' : Expr V} (h : Unlabels fits body body'), motive body body' h →
      motive (.optional body) (.optional body') (.optional h))
    (notAhead : ∀ {body body' : Expr V} (h : Unlabels fits body body'), motive body body' h →
      motive (.notAhead body) (.notAhead body') (.notAhead h))
    (ahead : ∀ {body body' : Expr V} (h : Unlabels fits body body'), motive body body' h →
      motive (.ahead body) (.ahead body') (.ahead h))
    (keep : ∀ name {body body' : Expr V} (h : Unlabels fits body body'), motive body body' h →
      motive (.label name body) (.label name body') (.keep name h))
    (drop : ∀ name {body body' : Expr V} (h : Unlabels fits body body'), motive body body' h →
      motive (.label name body) body' (.drop name h))
    {e e' : Expr V} (h : Unlabels fits e e') : motive e e' h :=
  @Unlabels.rec V fits motive
    (fun items items' _ => List.Forall₂ (fun item item' => ∃ h, motive item item' h) items items')
    terminal rule action (fun hitems hfits ih => seq hitems hfits ih)
    (fun hitems ih => choice hitems ih) star plus optional notAhead ahead keep drop .nil
    (fun h _ ih ihs => .cons ⟨h, ih⟩ ihs) e e' h

/-! ## Analyses -/

/-- A label is nullable exactly if what it stands around is. -/
theorem Unlabels.nullable_eq (h : Unlabels fits e e') (known : RuleId → Bool) :
    e'.nullable known = e.nullable known := by
  induction h using Unlabels.induct with
  | seq hitems hfits ih =>
      have hsame := ih.imp fun _ _ ⟨_, hsame⟩ => hsame
      clear hitems hfits ih
      rw [nullable, nullable]
      induction hsame with
      | nil => rfl
      | cons hitem hrest ih => rw [nullableIn, nullableIn, hitem, ih]
  | choice hitems ih =>
      have hsame := ih.imp fun _ _ ⟨_, hsame⟩ => hsame
      clear hitems ih
      rw [nullable, nullable]
      induction hsame with
      | nil => rfl
      | cons hitem hrest ih => rw [nullableAmong, nullableAmong, hitem, ih]
  | plus h ih | keep name h ih | drop name h ih => exact ih
  | _ => rfl

/-- A label leads with what it stands around. -/
theorem Unlabels.leads_eq (h : Unlabels fits e e') (known : RuleId → Bool) :
    e'.leads known = e.leads known := by
  induction h using Unlabels.induct with
  | terminal h | rule id | action action => rfl
  | seq hitems hfits ih =>
      have hsame := ih.imp fun _ _ ⟨h, hsame⟩ => And.intro (h.nullable_eq known) hsame
      clear hitems hfits ih
      rw [leads, leads]
      induction hsame with
      | nil => rfl
      | cons hitem hrest ih => rw [seqLeads, seqLeads, hitem.1, hitem.2, ih]
  | choice hitems ih =>
      have hsame := ih.imp fun _ _ ⟨_, hsame⟩ => hsame
      clear hitems ih
      rw [leads, leads]
      induction hsame with
      | nil => rfl
      | cons hitem hrest ih => rw [choiceLeads, choiceLeads, hitem, ih]
  | star h ih | plus h ih | optional h ih | notAhead h ih | ahead h ih | keep name h ih
  | drop name h ih => exact ih

/-! ## Subterms -/

theorem children_of_isTerminal {e : Expr V} (h : e.isTerminal = true) : e.children = [] := by
  cases e <;> first | rfl | cases h

/-- Whether an expression is a label. -/
def isLabel : Expr V → Bool
  | label .. => true
  | _ => false

/-- Each of the items on the right belongs to one on the left. -/
theorem exists_mem_of_forall₂ {α : Type} {R : α → α → Prop} {items items' : List α}
    (h : List.Forall₂ R items items') : ∀ item' ∈ items', ∃ item ∈ items, R item item' := by
  induction h with
  | nil => nofun
  | cons hitem hrest ih =>
      refine List.forall_mem_cons.2 ⟨⟨_, List.mem_cons_self, hitem⟩, fun item' hmem => ?_⟩
      rcases ih item' hmem with ⟨item, hitem, hrelated⟩
      exact ⟨item, List.mem_cons_of_mem _ hitem, hrelated⟩

/-- A subterm is the whole, or a subterm of a part. -/
theorem exists_subterm_of_children {R : Expr V → Expr V → Prop} (hself : R e e')
    (hparts : ∀ part' ∈ e'.children, ∃ part ∈ e.children,
      ∀ x' ∈ part'.subterms, ∃ x ∈ part.subterms, R x x') :
    ∀ x' ∈ e'.subterms, ∃ x ∈ e.subterms, R x x' := by
  intro x' hx'
  rcases mem_subterms_iff.1 hx' with rfl | ⟨part', hpart', hx'⟩
  · exact ⟨e, mem_subterms_self e, hself⟩
  · rcases hparts part' hpart' with ⟨part, hpart, hfrom⟩
    rcases hfrom x' hx' with ⟨x, hx, hrelated⟩
    exact ⟨x, mem_subterms_of_mem_children hpart hx, hrelated⟩

/-- Every subterm that is left comes from one of its kind: a label from a label, and
anything else from something else. -/
theorem Unlabels.exists_of_mem_subterms (h : Unlabels fits e e') :
    ∀ x' ∈ e'.subterms, ∃ x ∈ e.subterms, x.isLabel = x'.isLabel ∧ Unlabels fits x x' := by
  have hbody : ∀ {P : Expr V → Expr V → Prop} {body body' : Expr V}, P body body' →
      ∀ part' ∈ [body'], ∃ part ∈ [body], P part part' := fun h =>
    List.forall_mem_singleton.2 ⟨_, List.mem_singleton_self _, h⟩
  induction h using Unlabels.induct with
  | @terminal e hterminal =>
      refine exists_subterm_of_children ⟨rfl, .terminal hterminal⟩ ?_
      rw [e.children_of_isTerminal hterminal]
      nofun
  | rule id => exact exists_subterm_of_children ⟨rfl, .rule id⟩ nofun
  | action action => exact exists_subterm_of_children ⟨rfl, .action action⟩ nofun
  | seq hitems hfits ih =>
      refine exists_subterm_of_children ⟨rfl, .seq hitems hfits⟩ ?_
      exact exists_mem_of_forall₂ (ih.imp fun _ _ ⟨_, hfrom⟩ => hfrom)
  | choice hitems ih =>
      refine exists_subterm_of_children ⟨rfl, .choice hitems⟩ ?_
      exact exists_mem_of_forall₂ (ih.imp fun _ _ ⟨_, hfrom⟩ => hfrom)
  | star h ih => exact exists_subterm_of_children ⟨rfl, .star h⟩ (hbody ih)
  | plus h ih => exact exists_subterm_of_children ⟨rfl, .plus h⟩ (hbody ih)
  | optional h ih => exact exists_subterm_of_children ⟨rfl, .optional h⟩ (hbody ih)
  | notAhead h ih => exact exists_subterm_of_children ⟨rfl, .notAhead h⟩ (hbody ih)
  | ahead h ih => exact exists_subterm_of_children ⟨rfl, .ahead h⟩ (hbody ih)
  | keep name h ih => exact exists_subterm_of_children ⟨rfl, .keep name h⟩ (hbody ih)
  | drop name h ih =>
      intro x' hx'
      rcases ih x' hx' with ⟨x, hx, hkind⟩
      exact ⟨x, mem_subterms_of_mem_children List.mem_cons_self hx, hkind⟩

end Expr

end Peg
