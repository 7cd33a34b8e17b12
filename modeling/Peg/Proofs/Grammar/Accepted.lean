import Peg.Grammar.Draft
import Peg.Proofs.Expr.Subterms

/-!
# Accepted grammars

What a grammar is known to satisfy once a draft has been built: every rule that is
mentioned exists, a rule whose body is nullable is among the nullable rules, and no
repetition goes round on a nullable expression.

The nullable rules are found by sweeping.  Each sweep that changes something marks
one more rule at least, so as many sweeps as there are rules reach a state that one
more sweep would not change.

Main results:

- `Nullable.sweep_rules`: the sweeps reach a fixpoint.
- `Nullable.lookup_rules`: the rule of a nullable body is marked.
- `Draft.accepted_of_build`: every grammar that was built is accepted.
-/

namespace Peg

variable {V : Type}

namespace Nullable

/-! ## Sweeping to a fixpoint -/

/-- Marking leaves the answers as they are, or there is one more positive one. -/
theorem mark_eq_or_count_mark (known : List Bool) (entry : Expr V × Nat) :
    mark known entry = known ∨ (mark known entry).count true = known.count true + 1 := by
  unfold mark
  split
  next hnullable =>
      by_cases hindex : entry.2 < known.length
      · cases hold : known[entry.2] with
        | true =>
            left
            rw [← hold]
            exact List.set_getElem_self hindex
        | false =>
            right
            rw [List.count_set hindex, hold]
            simp
      · left
        exact List.set_eq_of_length_le (Nat.le_of_not_lt hindex)
  next => exact Or.inl rfl

/-- A rule that is known to be nullable stays known. -/
theorem count_le_count_mark (known : List Bool) (entry : Expr V × Nat) :
    known.count true ≤ (mark known entry).count true := by
  rcases mark_eq_or_count_mark known entry with h | h
  · exact Nat.le_of_eq (by rw [h])
  · omega

theorem count_le_count_foldl_mark (entries : List (Expr V × Nat)) (known : List Bool) :
    known.count true ≤ (entries.foldl mark known).count true := by
  induction entries generalizing known with
  | nil => exact Nat.le_refl _
  | cons entry entries ih =>
      exact Nat.le_trans (count_le_count_mark known entry) (ih (mark known entry))

/-- Marks are not taken back, so if many of them change nothing, none does. -/
theorem mark_eq_of_foldl_mark_eq {entries : List (Expr V × Nat)} {known : List Bool}
    (h : entries.foldl mark known = known) : ∀ entry ∈ entries, mark known entry = known := by
  induction entries with
  | nil =>
      intro entry hentry
      cases hentry
  | cons first entries ih =>
      have hfirst : mark known first = known := by
        rcases mark_eq_or_count_mark known first with hsame | hcount
        · exact hsame
        · have hrest := count_le_count_foldl_mark entries (mark known first)
          rw [List.foldl_cons] at h
          rw [h, hcount] at hrest
          omega
      rw [List.foldl_cons, hfirst] at h
      intro entry hentry
      rcases List.mem_cons.1 hentry with rfl | hlater
      · exact hfirst
      · exact ih h entry hlater

/-- A sweep that changes something makes one more answer positive. -/
theorem count_lt_count_foldl_mark {entries : List (Expr V × Nat)} {known : List Bool}
    (h : entries.foldl mark known ≠ known) :
    known.count true < (entries.foldl mark known).count true := by
  induction entries generalizing known with
  | nil => exact absurd rfl h
  | cons entry entries ih =>
      rw [List.foldl_cons] at h ⊢
      rcases mark_eq_or_count_mark known entry with hsame | hcount
      · rw [hsame] at h ⊢
        exact ih h
      · have hrest := count_le_count_foldl_mark entries (mark known entry)
        omega

/-- Enough sweeps reach a fixpoint. -/
theorem sweep_settle (bodies : List (Expr V)) {sweeps : Nat} {known : List Bool}
    (henough : known.length ≤ known.count true + sweeps) :
    sweep bodies (settle bodies sweeps known) = settle bodies sweeps known := by
  induction sweeps generalizing known with
  | zero =>
      by_cases hsame : sweep bodies known = known
      · exact hsame
      · have hmore : known.count true < (sweep bodies known).count true :=
          count_lt_count_foldl_mark hsame
        have hmost : (sweep bodies known).count true ≤ (sweep bodies known).length :=
          List.count_le_length
        rw [length_sweep] at hmost
        omega
  | succ sweeps ih =>
      rw [settle]
      by_cases hsame : sweep bodies known = known
      · simp only [hsame, if_true]
      · have hmore : known.count true < (sweep bodies known).count true :=
          count_lt_count_foldl_mark hsame
        simp only [hsame, if_false]
        apply ih
        rw [length_sweep]
        omega

/-- The sweeps reach a fixpoint. -/
theorem sweep_rules (bodies : List (Expr V)) : sweep bodies (rules bodies) = rules bodies := by
  apply sweep_settle
  rw [List.length_replicate]
  omega

/-- The rule of a nullable body is marked. -/
theorem lookup_rules {bodies : List (Expr V)} {id : RuleId} {body : Expr V}
    (hbody : bodies[id.index]? = some body)
    (hnullable : body.nullable (lookup (rules bodies)) = true) :
    lookup (rules bodies) id = true := by
  have hmem : (body, id.index) ∈ bodies.zipIdx := List.mem_zipIdx_iff_getElem?.2 hbody
  have hmark := mark_eq_of_foldl_mark_eq (sweep_rules bodies) (body, id.index) hmem
  have hlt : id.index < (rules bodies).length := by
    rw [length_rules]
    exact (List.getElem?_eq_some_iff.1 hbody).1
  rw [mark, if_pos hnullable] at hmark
  rw [lookup, ← hmark, List.getD_eq_getElem?_getD, List.getElem?_set_self hlt, Option.getD_some]

end Nullable

/-! ## Acceptance -/

/-- An expression mentions only rules that exist and repeats nothing nullable. -/
structure Expr.Sound (grammar : Grammar V) (known : RuleId → Bool) (e : Expr V) : Prop where
  mentioned : ∀ id, .rule id ∈ e.subterms → ∃ rule, grammar.rule? id = some rule
  star : ∀ body, .star body ∈ e.subterms → body.nullable known = false
  plus : ∀ body, .plus body ∈ e.subterms → body.nullable known = false

/-- The parts of a sound expression are sound. -/
theorem Expr.Sound.child {grammar : Grammar V} {known : RuleId → Bool} {part e : Expr V}
    (h : e.Sound grammar known) (hpart : part ∈ e.children) : part.Sound grammar known where
  mentioned id hid := h.mentioned id (mem_subterms_of_mem_children hpart hid)
  star body hbody := h.star body (mem_subterms_of_mem_children hpart hbody)
  plus body hbody := h.plus body (mem_subterms_of_mem_children hpart hbody)

/-- The bodies of a grammar are sound, given which rules may be nullable, and these
include all rules with a nullable body. -/
structure Grammar.Accepted (grammar : Grammar V) (known : RuleId → Bool) : Prop where
  sound : ∀ {id rule}, grammar.rule? id = some rule → rule.body.Sound grammar known
  closed : ∀ {id rule}, grammar.rule? id = some rule → rule.body.nullable known = true →
    known id = true

namespace Check

/-- In an accepted body nothing is repeated that is nullable. -/
theorem nullable_eq_false_of_hasEmptyLoop {known : RuleId → Bool} {body x part : Expr V}
    (h : hasEmptyLoop known body = false) (hx : x ∈ body.subterms)
    (hloop : isEmptyLoop known x = part.nullable known) : part.nullable known = false := by
  rw [hasEmptyLoop, List.any_eq_false] at h
  rw [← hloop]
  exact Bool.eq_false_iff.2 (h x hx)

/-- Rules that pass the check make up an accepted grammar. -/
theorem accepted_of_check {rules : List (Rule V)} (h : check rules = .ok ()) :
    Grammar.Accepted ⟨rules.toArray⟩ (Nullable.lookup (known rules)) := by
  rcases check_eq_ok_iff.1 h with ⟨hlocal, hloops, -⟩
  constructor
  · intro id rule hrule
    have hmem : rule ∈ rules := by
      rw [Grammar.rule?, List.getElem?_toArray] at hrule
      exact List.mem_of_getElem? hrule
    constructor
    · intro next hnext
      have hlt := (localFault?_eq_none_iff.1 (hlocal rule hmem _ hnext)).1 next rfl
      exact ⟨rules[next.index], by simp [Grammar.rule?, hlt]⟩
    · exact fun body hbody => nullable_eq_false_of_hasEmptyLoop (hloops rule hmem) hbody rfl
    · exact fun body hbody => nullable_eq_false_of_hasEmptyLoop (hloops rule hmem) hbody rfl
  · intro id rule hrule hnullable
    refine Nullable.lookup_rules ?_ hnullable
    rw [Grammar.rule?, List.getElem?_toArray] at hrule
    rw [bodies, List.getElem?_map, hrule, Option.map_some]

end Check

/-- Every grammar that was built is accepted. -/
theorem Draft.accepted_of_build {draft : Draft V} {grammar : Grammar V}
    (h : draft.build = .ok grammar) :
    grammar.Accepted (Nullable.lookup (Check.known grammar.rules.toList)) := by
  rcases build_eq_ok_iff.1 h with ⟨-, rules, -, hcheck, rfl⟩
  exact Check.accepted_of_check hcheck

end Peg
