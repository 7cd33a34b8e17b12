import Mathlib
import Peg.Proofs.Grammar.Nullability
import Peg.Proofs.Parse.Growth

/-!
# Matches that consume nothing

A match reads on or makes repairs, unless it is of something nullable.  So in a first
pass what matches without consuming anything is nullable, and an iteration of a
repetition always consumes something.

Main results:

- `Derives.nullable`: what matches without reading on or making repairs is nullable.
- `Draft.nullable_of_matched`: in a first pass, what matches without reading on is
  nullable, and iterations read on.
-/

namespace Peg

open Text

variable {V : Type}

/-- The bytes that have been read and the repairs that have been made. -/
def Machine.spent (m : Machine V) : Nat :=
  m.offset + m.inserted

/-- Whether a task may match without reading on, given which rules may. -/
def Task.nullable (known : RuleId → Bool) : Task V → Bool
  | .expr e => e.nullable known
  | .items _ _ parts _ _ => Expr.nullableIn known parts
  | .alternatives parts => Expr.nullableAmong known parts
  | .many _ => true
  | .call id => known id

variable {env : Env V} {a : Nat} {task : Task V} {m : Machine V} {o : Verdict × Machine V}
variable {made : List StandIn} {known : RuleId → Bool}

/-! ## What is spent -/

/-- What is spent is not taken back. -/
theorem Machine.Frame.spent_le {left : Machine V} (h : m.Frame env left) :
    m.spent ≤ left.spent :=
  Nat.add_le_add h.offset_le h.gaps.length_le

theorem Derives.spent_le (h : Derives env a task m o made) (hm : m.Valid env)
    (hmatched : o.1 = .matched) : m.spent ≤ o.2.spent :=
  Nat.add_le_add (h.offset_le hm hmatched) h.grows.gaps.length_le

/-- A missing terminal only matches if it is stood in for. -/
theorem Eval.spent_missing {e : Expr V} (hmatched : (missing env e m).1 = .matched) :
    (missing env e m).2.spent = m.spent + 1 := by
  unfold missing at hmatched ⊢
  cases hpass : env.pass with
  | first =>
      rw [hpass] at hmatched
      cases hmatched
  | repair errorOffset =>
      rw [hpass] at hmatched
      dsimp only at hmatched ⊢
      by_cases hstand : mayStandIn env errorOffset e m = true
      · by_cases hswitch : m.mayInsert = true
        · simp only [hstand, hswitch, if_true]
          rw [Machine.spent, Machine.spent, Machine.inserted_insert, ← Nat.add_assoc]
          rfl
        · simp [hstand, hswitch] at hmatched
      · simp [hstand] at hmatched

/-- A terminal that matches without reading on or being stood in for is nullable. -/
theorem Eval.nullable_of_terminal {e : Expr V} (hmatched : (terminal env e m).1 = .matched)
    (hspent : (terminal env e m).2.spent = m.spent) : e.nullable known = true := by
  cases hconsume : consume? e m.cursor with
  | some cursor =>
      simp only [terminal, hconsume] at hspent
      rcases consume?_eq_some_iff.1 hconsume with ⟨consumed, haccepts, hpast⟩
      have hoffset : cursor.offset = m.cursor.offset := Nat.add_right_cancel hspent
      have hzero : byteSize consumed = 0 := by
        have hpast := hpast.offset_eq
        omega
      rw [byteSize_eq_zero_iff] at hzero
      exact (hzero ▸ haccepts).nullable known
  | none =>
      simp only [terminal, hconsume] at hmatched hspent
      have hmore := spent_missing hmatched
      omega

/-! ## What is nullable -/

section Grammar

variable (hgrammar : env.grammar.Accepted known)

include hgrammar

/-- What matches without reading on or making repairs is nullable. -/
theorem Derives.nullable (h : Derives env a task m o made) (hm : m.Valid env)
    (hmatched : o.1 = .matched) (hspent : o.2.spent = m.spent) :
    task.nullable known = true := by
  induction h with
  | @terminal a e m hterminal =>
      rw [Eval.eq_of_rewinding_matched hmatched] at hspent hmatched
      exact Eval.nullable_of_terminal hmatched hspent
  | action | done | star | many_next | many_last | optional | notAhead | ahead => rfl
  | @seq a items m o made hitems ih =>
      rw [Eval.eq_of_rewinding_matched hmatched] at hspent hmatched
      exact ih hm hmatched hspent
  | @act_next a start inherited action items previous synthetic m left o made hact hrest ih =>
      have hframe : m.Frame env left := Eval.frame_runAction hm hact
      rcases Eval.exists_snd_runAction env action previous synthetic m
        with ⟨_, _, _, hleft⟩
      rw [hact] at hleft
      have hsame : left.spent = m.spent := by rw [show left = _ from hleft]; rfl
      exact ih hframe.valid hmatched (hspent.trans hsame.symm)
  | act_last hends => exact absurd hmatched hends
  | @part_next a start inherited item items previous synthetic m left o made later hitem hpart
      hrest ihpart ihrest =>
      have hstart : Machine.Valid env { m with committed := inherited || start < m.offset } :=
        ⟨hm.within, hm.vars⟩
      have hframe : Machine.Frame env { m with committed := inherited || start < m.offset } left :=
        hpart.framed hstart
      have hfirst : m.spent ≤ left.spent := hframe.spent_le
      have hlater : left.spent ≤ o.2.spent := hrest.spent_le hframe.valid hmatched
      have hitem := ihpart hstart rfl (Nat.le_antisymm (hspent ▸ hlater) hfirst)
      have hitems := ihrest hframe.valid hmatched (Nat.le_antisymm (hspent ▸ hfirst) hlater)
      simp only [Task.nullable] at hitem hitems ⊢
      rw [Expr.nullableIn, hitem, hitems, Bool.and_self]
  | part_last hitem hpart hends ih => exact absurd hmatched hends
  | choice_once honce hround ih =>
      rw [Eval.eq_of_rewinding_matched hmatched] at hspent hmatched
      exact ih hm hmatched hspent
  | choice_first htwo hround hends ih =>
      rw [Eval.eq_of_rewinding_matched hmatched] at hspent hmatched
      exact ih ⟨hm.within, hm.vars⟩ hmatched hspent
  | @choice_second a items m left o made later htwo hround hnoted hagain ihround ihagain =>
      have hround : (Eval.openRound m).Frame env left := hround.framed ⟨hm.within, hm.vars⟩
      have hframe : m.Frame env (Eval.undoRound m left) := hround.undoRound htwo
      rw [Eval.eq_of_rewinding_matched hmatched] at hspent hmatched
      have hlater := hagain.spent_le hframe.valid hmatched
      exact ihagain hframe.valid hmatched (Nat.le_antisymm (hspent ▸ hframe.spent_le) hlater)
  | no_alternative | unknown | limit | hit => cases hmatched
  | @alternative_next a item items m left o made later hmore hfirst hrest ihfirst ihrest =>
      have hfirst : m.Frame env left := hfirst.framed hm
      have hframe : m.Frame env left.backtrack := hfirst.observe _ _
      have hlater := hrest.spent_le hframe.valid hmatched
      have hitems := ihrest hframe.valid hmatched
        (Nat.le_antisymm (hspent ▸ hframe.spent_le) hlater)
      simp only [Task.nullable] at hitems ⊢
      rw [Expr.nullableAmong, hitems, Bool.or_true]
  | alternative_last hends hfirst ih =>
      have hitem := ih hm hmatched hspent
      simp only [Task.nullable] at hitem ⊢
      rw [Expr.nullableAmong, hitem, Bool.true_or]
  | @plus_next a body m left o made later hfirst hless hrest ihfirst ihrest =>
      have hframe : m.Frame env left := hfirst.framed hm
      rw [Eval.eq_of_rewinding_matched hmatched] at hspent hmatched
      have hlater : left.spent ≤ m.spent := hspent ▸ hrest.spent_le hframe.valid hmatched
      exact ihfirst hm rfl (Nat.le_antisymm hlater hframe.spent_le)
  | plus_last hfirst hends ih =>
      rw [Eval.eq_of_rewinding_matched hmatched] at hspent hmatched
      exact ih hm hmatched hspent
  | @label a name body m o made hbody ih =>
      rw [Eval.eq_of_rewinding_matched hmatched] at hspent hmatched
      rw [Eval.fst_labeled] at hmatched
      rcases Eval.exists_snd_labeled env name (fun _ => o) m with ⟨_, _, hleft⟩
      rw [hleft] at hspent
      exact ih ⟨hm.within, hm.vars⟩ hmatched hspent
  | rule hcall ih =>
      rw [Eval.eq_of_rewinding_matched hmatched] at hspent hmatched
      exact ih hm hmatched hspent
  | @body a id definition m o made hdefinition hknown hbody ih =>
      rcases Eval.exists_snd_body env id definition (Eval.memoKey? env id definition m)
        (fun _ => o) (Eval.countMiss env definition m) with ⟨_, _, _, _, hleft⟩
      rw [hleft] at hspent
      rw [Eval.fst_body] at hmatched
      rw [Eval.countMiss_eq] at ih
      exact hgrammar.closed hdefinition (ih ⟨hm.within, m.vars.valid_enter⟩ hmatched hspent)

end Grammar

/-! ## First passes -/

theorem Derives.frame_of_matched {e : Expr V} (h : Derives env a (.expr e) m o made)
    (hm : m.Valid env) (hmatched : o.1 = .matched) : m.Frame env o.2 := by
  have hframe := h.framed hm
  rcases o with ⟨_ | _ | _, left⟩
  · exact hframe
  · cases hmatched
  · cases hmatched

/-- In a first pass, reading on is all that a match can do. -/
theorem Derives.nullable_first {e : Expr V} (hgrammar : env.grammar.Accepted known)
    (hpass : env.pass = .first) (h : Derives env a (.expr e) m o made) (hm : m.Valid env)
    (hmatched : o.1 = .matched) (hoffset : o.2.offset = m.offset) :
    e.nullable known = true := by
  have hgaps : o.2.gaps = m.gaps := (h.frame_of_matched hm hmatched).gaps_first hpass
  refine h.nullable hgrammar hm hmatched ?_
  rw [Machine.spent, Machine.spent, hoffset, Machine.inserted, hgaps]
  rfl

/-- So what is not nullable leaves less of the text, if it matches. -/
theorem Derives.remaining_lt {e : Expr V} (hgrammar : env.grammar.Accepted known)
    (hpass : env.pass = .first) (hsize : env.source.size = byteSize env.source.text)
    (h : Derives env a (.expr e) m o made) (hm : m.Valid env) (hmatched : o.1 = .matched)
    (hnullable : e.nullable known = false) : Eval.remaining env o.2 < Eval.remaining env m := by
  have hframe := h.frame_of_matched hm hmatched
  have hne : o.2.offset ≠ m.offset := fun hoffset =>
    Bool.false_ne_true (hnullable.symm.trans
      (h.nullable_first hgrammar hpass hm hmatched hoffset))
  have hend : o.2.offset ≤ byteSize env.source.text := hframe.valid.within.offset_le
  have hle := hframe.offset_le
  rw [Eval.remaining, Eval.remaining, hsize]
  omega

/-- In a first pass with a grammar that was built, any part of a rule that matches without
reading on is among the nullable ones, and whenever the body of a repetition matches there
is less of the text left, so that the repetition goes on. -/
theorem Draft.nullable_of_matched {draft : Draft V} {grammar : Grammar V}
    (hbuild : draft.build = .ok grammar) (segments : List Segment) (settings : Settings)
    {id : RuleId} {definition : Rule V} (hdefinition : grammar.rule? id = some definition)
    (a : Nat) {m : Machine V}
    (hm : m.Valid ⟨grammar, .ofSegments segments, settings, .first⟩) :
    (∀ e ∈ definition.body.subterms,
      ((Task.expr e).run ⟨grammar, .ofSegments segments, settings, .first⟩ a m).1 = .matched →
      ((Task.expr e).run ⟨grammar, .ofSegments segments, settings, .first⟩ a m).2.offset =
        m.offset →
      e.nullable (Nullable.lookup (Check.known grammar.rules.toList)) = true) ∧
    ∀ body, .star body ∈ definition.body.subterms ∨ .plus body ∈ definition.body.subterms →
      ((Task.expr body).run ⟨grammar, .ofSegments segments, settings, .first⟩ a m).1 = .matched →
      Eval.remaining ⟨grammar, .ofSegments segments, settings, .first⟩
          ((Task.expr body).run ⟨grammar, .ofSegments segments, settings, .first⟩ a m).2 <
        Eval.remaining ⟨grammar, .ofSegments segments, settings, .first⟩ m := by
  have hgrammar := Draft.accepted_of_build hbuild
  refine ⟨fun e _ hmatched hoffset => ?_, fun body hbody hmatched => ?_⟩
  · rcases exists_derives ⟨grammar, .ofSegments segments, settings, .first⟩ a (.expr e) m
      with ⟨made, hmade⟩
    exact hmade.nullable_first hgrammar rfl hm hmatched hoffset
  · rcases exists_derives ⟨grammar, .ofSegments segments, settings, .first⟩ a (.expr body) m
      with ⟨made, hmade⟩
    have hsound := hgrammar.sound hdefinition
    exact hmade.remaining_lt hgrammar rfl (Source.size_ofSegments segments) hm hmatched
      (hbody.elim (hsound.star body) (hsound.plus body))

/-- A grammar of marks that may be signed. -/
def signedMarks : Grammar Nat where
  rules := #[⟨"marks", .star (.seq [.optional (.char '-'), .char 'x']), {}⟩]

theorem Draft.nullable_of_matched_signedMarks :
    (Expr.optional (.char '-') : Expr Nat).nullable
        (Nullable.lookup (Check.known signedMarks.rules.toList)) = true ∧
      Eval.remaining ⟨signedMarks, .ofSegments [.kept ['x', 'x']], {}, .first⟩
          ((Task.expr (.seq [.optional (.char '-'), .char 'x'])).run
            ⟨signedMarks, .ofSegments [.kept ['x', 'x']], {}, .first⟩ 0
            (.start ⟨signedMarks, .ofSegments [.kept ['x', 'x']], {}, .first⟩)).2 <
        Eval.remaining ⟨signedMarks, .ofSegments [.kept ['x', 'x']], {}, .first⟩
          (.start ⟨signedMarks, .ofSegments [.kept ['x', 'x']], {}, .first⟩) := by
  have hbuild : ((Draft.empty : Draft Nat).rule "marks"
      (.star (.seq [.optional (.char '-'), .char 'x']))).2.build = .ok signedMarks := by
    cbv
  have hmarks : signedMarks.rule? ⟨0⟩ =
      some ⟨"marks", .star (.seq [.optional (.char '-'), .char 'x']), {}⟩ :=
    rfl
  have hboth := Draft.nullable_of_matched hbuild [.kept ['x', 'x']] {} hmarks 0
    (valid_start ⟨signedMarks, .ofSegments [.kept ['x', 'x']], {}, .first⟩)
  refine ⟨hboth.1 (.optional (.char '-')) ?_ ?_ ?_, hboth.2 _ (.inl ?_) ?_⟩
  · simp [Expr.subterms, Expr.subtermsOf]
  · cbv
  · cbv
  · simp [Expr.subterms]
  · cbv

end Peg
