import Mathlib.Logic.Equiv.Basic
import Peg.Proofs.Grammar.Nullability

/-!
# The least fixpoint of the sweeps

The nullable rules are found by sweeping over the bodies until a sweep changes nothing.  That
happens after one sweep more than there are rules at the latest, and what is found then is the
least relation that the clauses of the expressions allow, whatever refers to what: rules may
refer to themselves, to one another, to later rules and to rules that do not exist.  The
relation does not mention the order of the rules, so the answers move with the rules when they
are listed in another order and their numbers are changed accordingly.

Main results:

- `Expr.vanishes_renamed_iff`: changing the numbers of the rules throughout changes nothing.
- `Nullable.exists_sweeps_settle`: sweeping comes to an end.
- `Nullable.least_rules`: what the sweeps find is the least fixpoint, in any order of the rules.
-/

namespace Peg

variable {V : Type}

namespace Expr

/-! ## Changing the numbers of rules -/

mutual

/-- Change the numbers of the rules that an expression refers to. -/
def renamed (f : RuleId → RuleId) : Expr V → Expr V
  | seq items => seq (renamedIn f items)
  | choice items => choice (renamedIn f items)
  | star body => star (body.renamed f)
  | plus body => plus (body.renamed f)
  | optional body => optional (body.renamed f)
  | notAhead body => notAhead (body.renamed f)
  | ahead body => ahead (body.renamed f)
  | rule id => rule (f id)
  | label name body => label name (body.renamed f)
  | other => other

/-- Change the numbers of the rules that some expressions refer to. -/
def renamedIn (f : RuleId → RuleId) : List (Expr V) → List (Expr V)
  | [] => []
  | item :: items => item.renamed f :: renamedIn f items

end

@[simp] theorem renamedIn_eq_map (f : RuleId → RuleId) (items : List (Expr V)) :
    renamedIn f items = items.map (renamed f) := by
  induction items with
  | nil => rfl
  | cons item items ih => simp [renamedIn, ih]

/-- Numbers that are changed back are as they were. -/
theorem renamed_renamed {f g : RuleId → RuleId} (h : ∀ id, g (f id) = id) (e : Expr V) :
    (e.renamed f).renamed g = e := by
  induction e using induction_children with
  | step e ih =>
      cases e with
      | char | range | oneOf | literal | any | endOfInput | empty | nothing | action => rfl
      | rule id => rw [renamed, renamed, h]
      | seq items | choice items =>
          have hitems : (items.map (renamed f)).map (renamed g) = items := by
            rw [List.map_map]
            exact (List.map_congr_left fun item hitem => ih item hitem).trans (List.map_id items)
          rw [renamed, renamed, renamedIn_eq_map, renamedIn_eq_map, hitems]
      | star body | plus body | optional body | notAhead body | ahead body | label name body =>
          rw [renamed, renamed, ih body List.mem_cons_self]

variable {body? body?' : RuleId → Option (Expr V)} {f : RuleId → RuleId} {e : Expr V}
variable {id : RuleId}

/-- Only a rule that exists may match nothing. -/
theorem Vanishes.exists_body (h : (Expr.rule id).Vanishes body?) :
    ∃ body, body? id = some body ∧ body.Vanishes body? := by
  cases h with
  | rule hbody h => exact ⟨_, hbody, h⟩

/-- What may match nothing still may when rules are listed under other numbers. -/
theorem Vanishes.renamed (h : e.Vanishes body?)
    (hlisted : ∀ id body, body? id = some body → body?' (f id) = some (body.renamed f)) :
    (e.renamed f).Vanishes body?' := by
  induction h with
  | literal ignoreCase => exact .literal ignoreCase
  | endOfInput => exact .endOfInput
  | empty => exact .empty
  | action program => exact .action program
  | star body => exact .star _
  | optional body => exact .optional _
  | notAhead body => exact .notAhead _
  | ahead body => exact .ahead _
  | plus h ih => exact .plus ih
  | label name h ih => exact .label name ih
  | seq h ih =>
      rw [Expr.renamed, renamedIn_eq_map]
      refine .seq fun item hitem => ?_
      rcases List.mem_map.1 hitem with ⟨before, hbefore, rfl⟩
      exact ih before hbefore
  | choice hmem h ih =>
      rw [Expr.renamed, renamedIn_eq_map]
      exact .choice (List.mem_map_of_mem hmem) ih
  | rule hbody h ih => exact .rule (hlisted _ _ hbody) ih

/-- Changing the numbers of the rules throughout changes nothing. -/
theorem vanishes_renamed_iff {σ : Equiv.Perm RuleId}
    (hlisted : ∀ id, body?' (σ id) = (body? id).map (Expr.renamed σ)) :
    (e.renamed σ).Vanishes body?' ↔ e.Vanishes body? := by
  constructor
  · intro h
    have hback : ∀ id body, body?' id = some body →
        body? (σ.symm id) = some (body.renamed σ.symm) := by
      intro id body hbody
      have hthere := hlisted (σ.symm id)
      rw [σ.apply_symm_apply, hbody] at hthere
      rcases Option.map_eq_some_iff.1 hthere.symm with ⟨before, hbefore, rfl⟩
      rw [hbefore, renamed_renamed σ.symm_apply_apply]
    have hrenamed := h.renamed hback
    rwa [renamed_renamed σ.symm_apply_apply] at hrenamed
  · intro h
    refine h.renamed fun id body hbody => ?_
    rw [hlisted, hbody, Option.map_some]

end Expr

namespace Nullable

variable {bodies : List (Expr V)} {known result : List Bool}

/-! ## Sweeping without a bound -/

/-- A number of sweeps, the last of which is the first that changes nothing. -/
inductive Sweeps (bodies : List (Expr V)) : Nat → List Bool → List Bool → Prop
  | last {known : List Bool} (h : sweep bodies known = known) : Sweeps bodies 1 known known
  | again {count : Nat} {known result : List Bool} (h : sweep bodies known ≠ known)
      (hrest : Sweeps bodies count (sweep bodies known) result) :
      Sweeps bodies (count + 1) known result

/-- Sweeping comes to an end, as every sweep but the last marks a rule, and it ends with what
a bounded number of sweeps finds. -/
theorem exists_sweeps_settle {sweeps : Nat}
    (henough : known.length ≤ known.count true + sweeps) :
    ∃ count ≤ sweeps + 1, Sweeps bodies count known (settle bodies sweeps known) := by
  induction sweeps generalizing known with
  | zero => exact ⟨1, Nat.le_refl 1, .last (sweep_settle bodies henough)⟩
  | succ sweeps ih =>
      rw [settle]
      by_cases hsame : sweep bodies known = known
      · simp only [hsame, if_true]
        exact ⟨1, Nat.le_add_left _ _, .last hsame⟩
      · have hmore : known.count true < (sweep bodies known).count true :=
          count_lt_count_foldl_mark hsame
        have hrest : (sweep bodies known).length ≤ (sweep bodies known).count true + sweeps := by
          rw [length_sweep]
          omega
        rcases ih hrest with ⟨count, hcount, hsweeps⟩
        simp only [hsame, if_false]
        exact ⟨count + 1, Nat.succ_le_succ hcount, .again hsame hsweeps⟩

/-! ## What is found -/

/-- There is an answer for every rule that exists. -/
theorem getElem?_rules (bodies : List (Expr V)) (id : RuleId) :
    (rules bodies)[id.index]? = (bodyIn bodies id).map fun _ => lookup (rules bodies) id := by
  by_cases hless : id.index < bodies.length
  · simp [bodyIn, lookup, hless]
  · simp [bodyIn, hless]

/-- The answer for a rule is whether it may match nothing. -/
theorem lookup_rules_iff (bodies : List (Expr V)) (id : RuleId) :
    lookup (rules bodies) id = true ↔ (Expr.rule id).Vanishes (bodyIn bodies) :=
  nullable_rules_iff bodies (.rule id)

/-- Whatever rules refer to, sweeping ends, after one sweep more than there are rules at the
latest; a rule is found then exactly if it may match nothing by the clauses of the
expressions; and if the rules are listed in another order and their numbers are changed
accordingly, the answers are the same. -/
theorem least_rules (bodies : List (Expr V)) :
    (∃ count ≤ bodies.length + 1,
      Sweeps bodies count (List.replicate bodies.length false) (rules bodies)) ∧
    (rules bodies).length = bodies.length ∧
    (∀ id : RuleId,
      (rules bodies)[id.index]? = some true ↔ (Expr.rule id).Vanishes (bodyIn bodies)) ∧
    ∀ (σ : Equiv.Perm RuleId) (reordered : List (Expr V)),
      (∀ id, bodyIn reordered (σ id) = (bodyIn bodies id).map (Expr.renamed σ)) →
      ∀ id, (rules reordered)[(σ id).index]? = (rules bodies)[id.index]? := by
  refine ⟨exists_sweeps_settle ?_, length_rules bodies, fun id => ?_,
    fun σ reordered hlisted id => ?_⟩
  · rw [List.length_replicate]
    omega
  · rw [getElem?_rules, Option.map_eq_some_iff, ← lookup_rules_iff]
    refine ⟨fun ⟨body, hbody, hanswer⟩ => hanswer, fun hanswer => ?_⟩
    rcases ((lookup_rules_iff bodies id).1 hanswer).exists_body with ⟨body, hbody, -⟩
    exact ⟨body, hbody, hanswer⟩
  · have hsame : lookup (rules reordered) (σ id) = lookup (rules bodies) id := by
      rw [Bool.eq_iff_iff, lookup_rules_iff, lookup_rules_iff]
      exact Expr.vanishes_renamed_iff (e := .rule id) hlisted
    rw [getElem?_rules, getElem?_rules, hlisted, hsame, Option.map_map]
    rfl

/-- Rules that refer to one another in a circle, to themselves and to a rule that does not
exist; the first of them is listed last. -/
theorem least_rules_circle :
    let bodies : List (Expr Nat) := [.seq [.rule ⟨1⟩, .optional (.char 'x')],
      .choice [.char 'b', .rule ⟨2⟩], .choice [.rule ⟨9⟩, .rule ⟨0⟩, .literal "" false],
      .plus (.rule ⟨3⟩)]
    let reordered : List (Expr Nat) := [.plus (.rule ⟨0⟩), .choice [.char 'b', .rule ⟨2⟩],
      .choice [.rule ⟨9⟩, .rule ⟨3⟩, .literal "" false], .seq [.rule ⟨1⟩, .optional (.char 'x')]]
    let σ : Equiv.Perm RuleId := Equiv.swap ⟨0⟩ ⟨3⟩
    (∀ id, bodyIn reordered (σ id) = (bodyIn bodies id).map (Expr.renamed σ)) ∧
      (rules reordered)[(σ ⟨0⟩).index]? = (rules bodies)[0]? ∧
      rules bodies = [true, true, true, false] := by
  intro bodies reordered σ
  have hlisted : ∀ id, bodyIn reordered (σ id) = (bodyIn bodies id).map (Expr.renamed σ) := by
    rintro ⟨_ | _ | _ | _ | index⟩
    · rfl
    · rfl
    · rfl
    · rfl
    · have hfixed : σ ⟨index + 4⟩ = ⟨index + 4⟩ :=
        Equiv.swap_apply_of_ne_of_ne (by simp) (by simp)
      rw [hfixed]
      rfl
  exact ⟨hlisted, (least_rules bodies).2.2.2 σ reordered hlisted ⟨0⟩, by decide⟩

end Nullable

end Peg
