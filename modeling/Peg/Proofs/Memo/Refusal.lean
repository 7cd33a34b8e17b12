import Peg.Proofs.Memo.Coverage
import Peg.Proofs.Memo.Place

/-!
# Rules that refuse a place

A rule without actions that did not match at a place does not match at that place
ever, whichever way the place is come to: wherever in the text of nested invocations,
inside lookahead or not, with whatever on the stack.  All that a mismatch leaves behind
is known from the place too: whether a repair was refused, and what the frontier has
gained.

Main results:

- `Eval.refuses_of_mismatched`: a mismatch shows that the rule refuses the place.
- `Eval.Refuses.invoke_eq`: a rule that refuses a place leaves the machine as it was,
  but for the note of a refused repair and for the frontier.
-/

namespace Peg

open Text

variable {V : Type}

/-- The text behind a reading head is determined by its offset. -/
theorem Text.Cursor.Within.eq_of_offset_eq {text : List Char} {a b : Cursor}
    (ha : a.Within text) (hb : b.Within text) (h : a.offset = b.offset) : a = b := by
  rcases ha with ⟨front, htext, hoffset⟩
  rcases hb with ⟨front', htext', hoffset'⟩
  have hdrop : dropBytes? a.offset text = some a.rest := by
    rw [htext, hoffset, dropBytes?_append]
  have hdrop' : dropBytes? b.offset text = some b.rest := by
    rw [htext', hoffset', dropBytes?_append]
  rw [← h, hdrop, Option.some_inj] at hdrop'
  rcases a with ⟨offset, rest⟩
  rcases b with ⟨offset', rest'⟩
  cases h
  cases hdrop'
  rfl

namespace Machine

/-- The machine with nothing recorded yet, so that it shows what is recorded next. -/
def fresh (env : Env V) (m : Machine V) : Machine V :=
  { m with
    frontier := .empty
    wouldInsert := false
    probes := if env.pass.isRepair then m.probes else 0 }

variable {env : Env V} {m n : Machine V}

/-- A machine with nothing in it but its place is at that place. -/
theorem fresh_place (m : Machine V) : (m.fresh env).SamePlace env m where
  cursor_eq := rfl
  committed_eq _ := rfl
  mayInsert_eq _ := rfl
  probing_eq hrepair := by simp [fresh, hrepair]
  inserted_eq _ := rfl

/-- The surroundings belong to the place. -/
theorem memoContext_fresh (m : Machine V) : (m.fresh env).memoContext env = m.memoContext env := by
  unfold memoContext
  by_cases hrepair : env.pass.isRepair = true
  · simp [fresh, hrepair, inserted]
  · simp [hrepair]

/-- Offset and context of a machine say at which place it is. -/
theorem samePlace_of_memoContext_eq (hm : m.Valid env) (hn : n.Valid env)
    (hoffset : m.offset = n.offset) (hcontext : m.memoContext env = n.memoContext env) :
    m.SamePlace env n := by
  have hcursor : m.cursor = n.cursor := hm.within.eq_of_offset_eq hn.within hoffset
  unfold memoContext at hcontext
  by_cases hrepair : env.pass.isRepair = true
  · simp only [hrepair, if_true, MemoContext.repair.injEq] at hcontext
    exact ⟨hcursor, fun _ => hcontext.1, fun _ => hcontext.2.1, fun _ => hcontext.2.2.1,
      fun _ => hcontext.2.2.2⟩
  · exact ⟨hcursor, fun h => absurd h hrepair, fun h => absurd h hrepair,
      fun h => absurd h hrepair, fun h => absurd h hrepair⟩

end Machine

namespace Eval

open Machine

variable {env : Env V} {m n l l' left : Machine V}

/-- At some machine that has nothing recorded, a rule was found not to match. -/
structure Refusal (env : Env V) (key : MemoKey) (allowance : Nat) (m left : Machine V) :
    Prop where
  valid : m.Valid env
  offset_eq : m.offset = key.offset
  context_eq : m.memoContext env = key.context
  frontier_eq : m.frontier = .empty
  wouldInsert_eq : m.wouldInsert = false
  probes_eq : env.pass.isRepair = false → m.probes = 0
  invoke_eq : invoke env allowance key.rule m = (.mismatched, left)
  inserted_eq : left.inserted = m.inserted

/-- A rule refuses a place: whether a repair was refused with that, and what the frontier
gains by it in a first pass. -/
def Refuses (env : Env V) (key : MemoKey) (refused : Bool) (added : Frontier V) : Prop :=
  ∃ allowance m left, Refusal env key allowance m left ∧ left.wouldInsert = refused ∧
    (env.pass.isRepair = false →
      left.frontier = added ∧ added.Named key.offset (.rule key.rule))

theorem AlongPlace.symm (h : AlongPlace env m n l l') : AlongPlace env n m l' l := by
  rcases h with ⟨hlast, added, refused, hm, hn⟩
  exact ⟨⟨hlast.cursor_eq.symm, fun h => (hlast.committed_eq h).symm,
    fun h => (hlast.mayInsert_eq h).symm, fun h => (hlast.probing_eq h).symm,
    fun h => (hlast.inserted_eq h).symm⟩, added, refused, hn, hm⟩

/-- A mismatch without repairs shows that the rule refuses the place. -/
theorem refuses_of_mismatched (hmemo : env.settings.memoization = false) {id : RuleId}
    {definition : Rule V} (hdefinition : env.grammar.rule? id = some definition)
    (hfree : env.grammar.ActionFree id) (hn : n.Valid env) {allowance : Nat} {inside : Machine V}
    (hbody : expr env (invoke env allowance) definition.body (enterRule id definition n) =
      (.mismatched, inside))
    (hinserted : inside.inserted = n.inserted) :
    ∃ added, Refuses env ⟨id, n.offset, n.memoContext env⟩ inside.wouldInsert added ∧
      n.Quiet env added inside.wouldInsert
        (noteFailure env n (leaveRule definition n inside) (.rule id)) := by
  have hready : Ready env env (AlongPlace env) ((n.fresh env).probes != 0) (n.fresh env) n :=
    ⟨⟨hn.within, hn.vars⟩, hn, rfl, start_place_iff.2 (fresh_place n)⟩
  have hfollows : Follows env env (AlongPlace env) ((n.fresh env).probes != 0)
      (expr env (invoke env allowance) definition.body)
      (expr env (invoke env allowance) definition.body) :=
    follows_body_place hfree hdefinition fun inside next hnext =>
      follows_invoke_place hmemo hnext (Nat.le_refl allowance)
  have halike := hfollows.alike _ _ (ready_enterRule_place id definition hready)
  rw [hbody] at halike
  generalize hfresh : expr env (invoke env allowance) definition.body
    (enterRule id definition (n.fresh env)) = outcome at halike
  cases halike with
  | @mismatched first _ halong =>
      have hinvoke : invoke env (allowance + 1) id (n.fresh env) = _ :=
        (invoke_succ_eq_body hmemo hdefinition allowance _).trans (body_eq_of_mismatched hfresh)
      have hsame : first.wouldInsert = inside.wouldInsert := by
        rcases halong.quiet with ⟨added, refused, hm, hn⟩
        rw [hm.wouldInsert_eq, hn.wouldInsert_eq]
        rfl
      rcases (alongPlace_leaveRule halong).noteFailure (fresh_place n) (.rule id)
        with ⟨hlast, added, refused, hquiet, hquiet'⟩
      have hrefused : refused = inside.wouldInsert := by
        have hnoted := hquiet.wouldInsert_eq
        rw [noteFailure, recordNamed_eq] at hnoted
        simpa [leaveRule, fresh, hsame] using hnoted.symm
      subst hrefused
      refine ⟨added, ⟨allowance + 1, n.fresh env, _, ⟨⟨hn.within, hn.vars⟩, rfl, ?_, rfl, rfl, ?_,
        hinvoke, ?_⟩, ?_, ?_⟩, hquiet'⟩
      · exact memoContext_fresh n
      · intro hfirst
        simp [fresh, hfirst]
      · have hframe := framed_invoke (allowance + 1) id (n.fresh env) hready.left
        rw [hinvoke] at hframe
        by_cases hrepair : env.pass.isRepair = true
        · have hlast := hlast.inserted_eq hrepair
          rw [noteFailure_eq env n] at hlast
          exact hlast.trans hinserted
        · have hfirst := Pass.isRepair_eq_false_iff.1 (eq_false_of_ne_true hrepair)
          exact congrArg List.length (Machine.Frame.gaps_first hframe hfirst)
      · exact hquiet.wouldInsert_eq
      · intro hfirst
        have hfrontier := hquiet.frontier_eq
        have hrecording : (n.fresh env).recording env = true := by simp [recording, fresh, hfirst]
        rw [if_pos hrecording] at hfrontier
        have hadded := hfrontier.trans (Frontier.empty_append added)
        refine ⟨hadded, ?_⟩
        have hleft : (leaveRule definition (n.fresh env) first).recording env = true := by
          rcases (alongPlace_leaveRule halong).quiet with ⟨_, _, hleave, -⟩
          rw [hleave.recording_eq, hrecording]
        rw [← hadded, frontier_noteFailure hleft]
        exact Frontier.named_recordNamed_empty _ _ _

/-- What another invocation at the place leaves, if it can be compared. -/
theorem Refusal.quiet_of_along {key : MemoKey} {allowance : Nat} {first : Machine V}
    {added : Frontier V} (h : Refusal env key allowance m first)
    (hadded : env.pass.isRepair = false → first.frontier = added)
    (hplace : m.SamePlace env n) (hframe : n.Frame env left)
    (halong : AlongPlace env m n first left) :
    n.Quiet env added first.wouldInsert left ∧ left.gaps = n.gaps := by
  rcases halong with ⟨hlast, added', refused', hquiet, hquiet'⟩
  refine ⟨?_, ?_⟩
  · have hsame : refused' = first.wouldInsert := by
      rw [hquiet.wouldInsert_eq, h.wouldInsert_eq, Bool.false_or]
    refine { hquiet' with frontier_eq := ?_, wouldInsert_eq := hsame ▸ hquiet'.wouldInsert_eq }
    rw [hquiet'.frontier_eq]
    split
    next hrecording =>
        have hfirst : env.pass.isRepair = false := by simp_all [recording]
        have hfrontier := hquiet.frontier_eq
        have hfresh : m.recording env = true := by
          simp [recording, hfirst, h.probes_eq hfirst]
        rw [if_pos hfresh, h.frontier_eq, Frontier.empty_append, hadded hfirst] at hfrontier
        rw [hfrontier]
    next => rfl
  · by_cases hrepair : env.pass.isRepair = true
    · have hlength : n.gaps.length = left.gaps.length :=
        calc
          n.inserted = m.inserted := (hplace.inserted_eq hrepair).symm
          _ = first.inserted := h.inserted_eq.symm
          _ = left.inserted := hlast.inserted_eq hrepair
      exact (hframe.gaps.eq_of_length hlength).symm
    · have hfirst := Pass.isRepair_eq_false_iff.1 (eq_false_of_ne_true hrepair)
      exact hframe.gaps_first hfirst

/-- An invocation that may go deeper than the one that was refused does alike. -/
theorem Refusal.along_of_le {key : MemoKey} {allowance : Nat} {first : Machine V}
    (h : Refusal env key allowance m first) (hmemo : env.settings.memoization = false)
    (hfree : env.grammar.ActionFree key.rule) (hn : n.Valid env) (hplace : m.SamePlace env n)
    {deeper : Nat} (hle : allowance ≤ deeper) :
    ∃ left, invoke env deeper key.rule n = (.mismatched, left) ∧
      AlongPlace env m n first left := by
  -- Of the two invocations the one that may go deeper comes first in the comparison.
  have hready : Ready env env (AlongPlace env) (n.probes != 0) n m :=
    ⟨hn, h.valid, rfl, (start_place_iff.2 hplace).symm⟩
  have halike := (follows_invoke_place hmemo hfree hle).alike n m hready
  rw [h.invoke_eq] at halike
  generalize invoke env deeper key.rule n = outcome at halike ⊢
  cases halike with
  | @mismatched left _ halong => exact ⟨left, rfl, halong.symm⟩

/-- What an invocation of a rule that refuses the place leaves, unless it runs into the
limit of nested invocations. -/
theorem Refuses.invoke_eq {key : MemoKey} {refused : Bool} {added : Frontier V}
    (h : Refuses env key refused added) (hmemo : env.settings.memoization = false)
    (hfree : env.grammar.ActionFree key.rule) (hn : n.Valid env) (hoffset : n.offset = key.offset)
    (hcontext : n.memoContext env = key.context) (allowance : Nat) :
    (∃ limit position left,
      invoke env allowance key.rule n = (.aborted (.recursionLimit limit position), left)) ∨
    ∃ left, invoke env allowance key.rule n = (.mismatched, left) ∧
      n.Frame env left ∧ n.Quiet env added refused left ∧ left.gaps = n.gaps := by
  rcases h with ⟨allowance₀, m, first, hrefusal, rfl, hadded⟩
  have hplace : m.SamePlace env n :=
    samePlace_of_memoContext_eq hrefusal.valid hn (hrefusal.offset_eq.trans hoffset.symm)
      (hrefusal.context_eq.trans hcontext.symm)
  have halong : (∃ limit position left,
        invoke env allowance key.rule n = (.aborted (.recursionLimit limit position), left)) ∨
      ∃ left, invoke env allowance key.rule n = (.mismatched, left) ∧
        AlongPlace env m n first left := by
    rcases Nat.le_total allowance allowance₀ with hle | hle
    · have hready : Ready env env (AlongPlace env) (m.probes != 0) m n :=
        ⟨hrefusal.valid, hn, rfl, start_place_iff.2 hplace⟩
      have halike := (follows_invoke_place hmemo hfree hle).alike m n hready
      rw [hrefusal.invoke_eq] at halike
      generalize invoke env allowance key.rule n = outcome at halike ⊢
      cases halike with
      | @mismatched _ left halong => exact .inr ⟨left, rfl, halong⟩
      | limited outcome limit position left => exact .inl ⟨limit, position, left, rfl⟩
    · exact .inr (hrefusal.along_of_le hmemo hfree hn hplace hle)
  refine halong.imp id ?_
  rintro ⟨left, hinvoke, halong⟩
  have hframe := framed_invoke allowance key.rule n hn
  rw [hinvoke] at hframe
  exact ⟨left, hinvoke, hframe,
    hrefusal.quiet_of_along (fun hfirst => (hadded hfirst).1) hplace hframe halong⟩

/-- An invocation of a rule that refuses the place does not match, if it may go deep
enough. -/
theorem Refuses.exists_invoke_eq {key : MemoKey} {refused : Bool} {added : Frontier V}
    (h : Refuses env key refused added) (hmemo : env.settings.memoization = false)
    (hfree : env.grammar.ActionFree key.rule) (hn : n.Valid env) (hoffset : n.offset = key.offset)
    (hcontext : n.memoContext env = key.context) :
    ∃ allowance left, invoke env allowance key.rule n = (.mismatched, left) ∧
      n.Frame env left ∧ n.Quiet env added refused left ∧ left.gaps = n.gaps := by
  rcases h with ⟨allowance, m, first, hrefusal, rfl, hadded⟩
  have hplace : m.SamePlace env n :=
    samePlace_of_memoContext_eq hrefusal.valid hn (hrefusal.offset_eq.trans hoffset.symm)
      (hrefusal.context_eq.trans hcontext.symm)
  rcases hrefusal.along_of_le hmemo hfree hn hplace (Nat.le_refl allowance)
    with ⟨left, hinvoke, halong⟩
  have hframe := framed_invoke allowance key.rule n hn
  rw [hinvoke] at hframe
  exact ⟨allowance, left, hinvoke, hframe,
    hrefusal.quiet_of_along (fun hfirst => (hadded hfirst).1) hplace hframe halong⟩

/-- What a refused rule adds is noted behind its start, or is the rule itself. -/
theorem Refuses.named {key : MemoKey} {refused : Bool} {added : Frontier V}
    (h : Refuses env key refused added) (hpass : env.pass.isRepair = false) :
    added.Named key.offset (.rule key.rule) := by
  rcases h with ⟨_, _, _, -, -, hadded⟩
  exact (hadded hpass).2

/-- A refused invocation changes nothing but the note of a refused repair and what is
recorded. -/
theorem eq_of_refused {refused : Bool} {added : Frontier V} (hframe : n.Frame env left)
    (hquiet : n.Quiet env added refused left) (hgaps : left.gaps = n.gaps)
    (hrewound : left.cursor = n.cursor ∧ left.nodes = n.nodes) :
    left =
      { n with
        wouldInsert := n.wouldInsert || refused
        frontier := left.frontier
        memo := left.memo
        stats := left.stats
        events := left.events } := by
  have hstack := hquiet.stack_eq
  have hvars := hquiet.vars_eq
  have hrefused := hquiet.wouldInsert_eq
  rcases hframe with ⟨-, -, -, -, -, hsuppressed, hdepth, hprobes, hrule, hscopes, hcommitted,
    hmayInsert, -, -, -, -⟩
  rcases hrewound with ⟨hcursor, hnodes⟩
  rcases left with ⟨⟩
  simp only at *
  subst_vars
  rfl

end Eval

end Peg
