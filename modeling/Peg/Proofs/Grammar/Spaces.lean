import Mathlib
import Peg.Proofs.Expr.Expansion
import Peg.Proofs.Grammar.Calls
import Peg.Proofs.Parse.Commitment

/-!
# Literals with whitespace behind them

In a grammar that was built with a rule for whitespace, a literal that was written with one
space behind it matches that literal and then whatever the rule for whitespace matches.  This
holds wherever in a rule the literal was written, be it in the rule for whitespace itself, and
from wherever an evaluation gets to it.

Main results:

- `Eval.expr_spaced_eq_matched_iff`: what a literal with whitespace behind it matches.
- `Draft.map_body_rule?`: the bodies in a grammar are those of its draft, expanded.
- `Draft.whitespace_convention`: what the expansion of literals leaves, and what it means.
-/

namespace Peg

open Text

variable {V : Type}

/-! ## In the first pass -/

namespace Eval

variable {env : Env V} {eval : Eval V} {m left : Machine V}

theorem rewinding_eq_matched_iff :
    rewinding eval m = (.matched, left) ↔ eval m = (.matched, left) := by
  unfold rewinding
  rcases eval m with ⟨_ | _ | _, _⟩ <;> simp

/-- In the first pass a terminal matches what it accepts, and nothing else. -/
theorem terminal_eq_matched_iff (hfirst : env.pass = .first) {e : Expr V} :
    terminal env e m = (.matched, left) ↔
      ∃ read cursor, e.Accepts read cursor.rest ∧ m.cursor.Past read cursor ∧
        left = { m with cursor := cursor } := by
  unfold terminal
  cases hconsume : consume? e m.cursor with
  | none =>
      refine ⟨fun h => by simp [missing, hfirst] at h, ?_⟩
      rintro ⟨read, cursor, haccepts, hpast, -⟩
      cases hconsume.symm.trans (consume?_eq_some_iff.2 ⟨read, haccepts, hpast⟩)
  | some cursor =>
      constructor
      · rintro ⟨⟩
        rcases consume?_eq_some_iff.1 hconsume with ⟨read, haccepts, hpast⟩
        exact ⟨read, cursor, haccepts, hpast, rfl⟩
      · rintro ⟨read, cursor', haccepts, hpast, rfl⟩
        cases hconsume.symm.trans (consume?_eq_some_iff.2 ⟨read, haccepts, hpast⟩)
        rfl

/-- A literal with whitespace behind it matches if the text goes on with the literal, and the
rule for whitespace matches what is behind it. -/
theorem expr_spaced_eq_matched_iff (hfirst : env.pass = .first) {call : RuleId → Eval V}
    (hcall : ∀ id, Indifferent (call id)) (lit : String) (ignoreCase : Bool) (whitespace : RuleId) :
    expr env call (.seq [.literal lit ignoreCase, .rule whitespace]) m = (.matched, left) ↔
      ∃ read cursor, Expr.Accepts (V := V) (.literal lit ignoreCase) read cursor.rest ∧
        m.cursor.Past read cursor ∧
        call whitespace { m with cursor := cursor } = (.matched, left) := by
  have hindifferent (e : Expr V) := indifferent_expr hfirst hcall e
  calc expr env call (.seq [.literal lit ignoreCase, .rule whitespace]) m = (.matched, left)
    _ ↔ sequence env [.part (expr env call (.literal lit ignoreCase)),
          .part (expr env call (.rule whitespace))] m = (.matched, left) := rewinding_eq_matched_iff
    _ ↔ ∃ middle, expr env call (.literal lit ignoreCase) m = (.matched, middle) ∧
          expr env call (.rule whitespace) middle = (.matched, left) :=
        sequence_pair_eq_matched_iff (hindifferent _) (hindifferent _)
    _ ↔ ∃ middle, terminal env (.literal lit ignoreCase) m = (.matched, middle) ∧
          call whitespace middle = (.matched, left) := by
        simp only [expr, rewinding_eq_matched_iff]
    _ ↔ _ := by
        simp only [terminal_eq_matched_iff hfirst]
        constructor
        · rintro ⟨_, ⟨read, cursor, haccepts, hpast, rfl⟩, hleft⟩
          exact ⟨read, cursor, haccepts, hpast, hleft⟩
        · rintro ⟨read, cursor, haccepts, hpast, hleft⟩
          exact ⟨_, ⟨read, cursor, haccepts, hpast, rfl⟩, hleft⟩

end Eval

/-! ## In a grammar -/

namespace Draft

variable {draft : Draft V} {grammar : Grammar V}

/-- The body that was written for a rule. -/
def written? (draft : Draft V) (id : RuleId) : Option (Expr V) :=
  draft.rules[id.index]?.bind DraftRule.body?

/-- The bodies in a grammar are those that were written, expanded. -/
theorem map_body_rule? (hbuild : draft.build = .ok grammar) (id : RuleId) :
    (grammar.rule? id).map Rule.body = (draft.written? id).map draft.expand := by
  rcases build_eq_ok_iff.1 hbuild with ⟨-, rules, hfinished, -, rfl⟩
  have hbodies := bodyIn_of_map_finished? (mapM_finishRule_eq_ok_iff.1 hfinished)
  calc (Grammar.rule? ⟨rules.toArray⟩ id).map Rule.body
    _ = Nullable.bodyIn (Check.bodies rules) id := by
        rw [Check.bodyIn_bodies, Grammar.rule?, List.getElem?_toArray]
    _ = (draft.written? id).map draft.expand := by
        rw [hbodies, finishedBody?, written?, Option.map_bind]
        rfl

/-- The convention for whitespace.  After an expression has been expanded no literal in it ends
in one space with something in front of it, expanding again changes nothing, and all other
expressions in it are still there and in order.  In a grammar with a rule for whitespace, what
was written as a literal with one space behind it matches in the first pass what the literal
matches, and behind that what the rule for whitespace matches. -/
theorem whitespace_convention (whitespace : RuleId) :
    (∀ e : Expr V,
      (∀ text ignoreCase,
        .literal text ignoreCase ∈ (e.expandWhitespace whitespace).subterms →
          ¬ Expr.EndsInOneSpace text) ∧
      (∀ again, (e.expandWhitespace whitespace).expandWhitespace again =
        e.expandWhitespace whitespace) ∧
      (e.expandWhitespace whitespace).subterms.map Expr.outline =
        e.subterms.flatMap (Expr.replacement whitespace)) ∧
    ∀ (draft : Draft V) (grammar : Grammar V), draft.whitespace? = some whitespace →
      draft.build = .ok grammar → ∀ id body, draft.written? id = some body →
        ∃ definition, grammar.rule? id = some definition ∧
          definition.body = body.expandWhitespace whitespace ∧
          ∀ path lit ignoreCase, body.at? path = some (.literal (lit ++ " ") ignoreCase) →
            Expr.EndsInOneSpace (lit ++ " ") → ∃ e, definition.body.at? path = some e ∧
              ∀ source settings allowance m left,
                let env : Env V := ⟨grammar, source, settings, .first⟩
                Eval.expr env (Eval.invoke env allowance) e m = (.matched, left) ↔
                  ∃ read cursor, Expr.Accepts (V := V) (.literal lit ignoreCase) read cursor.rest ∧
                    m.cursor.Past read cursor ∧
                    Eval.invoke env allowance whitespace { m with cursor := cursor } =
                      (.matched, left) := by
  refine ⟨fun e => ⟨fun text ignoreCase => Expr.not_endsInOneSpace_of_mem,
    fun again => Expr.expandWhitespace_expandWhitespace whitespace again e,
    Expr.outlines_expandWhitespace whitespace e⟩, ?_⟩
  intro draft grammar hwhitespace hbuild id body hbody
  have hbuilt := map_body_rule? hbuild id
  rw [hbody, Option.map_some, Option.map_eq_some_iff] at hbuilt
  rcases hbuilt with ⟨definition, hdefinition, hexpanded⟩
  simp only [expand, hwhitespace] at hexpanded
  refine ⟨definition, hdefinition, hexpanded, fun path lit ignoreCase hwritten hspace => ?_⟩
  have hplace := Expr.at?_expandWhitespace whitespace hwritten
  rw [Expr.expandWhitespace_literal, if_pos hspace, Expr.dropLast_append_space,
    ← hexpanded] at hplace
  refine ⟨_, hplace, fun source settings allowance m left => ?_⟩
  exact Eval.expr_spaced_eq_matched_iff rfl (Eval.indifferent_invoke rfl allowance) lit ignoreCase
    whitespace

/-- A list in brackets, with spaces behind its parts. -/
def bracketed : Draft Nat :=
  (((Draft.empty.rule "_" (.star (.char ' '))).2.rule "list"
    (.seq [.literal "[ " false, .optional (.literal "nil " true), .char ']'])).2).setWhitespace ⟨0⟩

/-- The grammar of lists in brackets. -/
def bracketedGrammar : Grammar Nat where
  rules := #[⟨"_", .star (.char ' '), {}⟩,
    ⟨"list", .seq [.seq [.literal "[" false, .rule ⟨0⟩],
      .optional (.seq [.literal "nil" true, .rule ⟨0⟩]), .char ']'], {}⟩]

/-- The first pass over a list. -/
def bracketedPass : Env Nat :=
  ⟨bracketedGrammar, .plain ['[', ' ', 'N', 'I', 'L', ' ', ' ', ']'], {}, .first⟩

/-- The machine behind the bracket and its space. -/
def bracketedInside : Machine Nat :=
  { Machine.start bracketedPass with cursor := ⟨2, ['N', 'I', 'L', ' ', ' ', ']']⟩ }

theorem whitespace_convention_bracketed :
    bracketed.whitespace? = some ⟨0⟩ ∧ bracketed.build = .ok bracketedGrammar ∧
      ∃ definition e read cursor left, bracketedGrammar.rule? ⟨1⟩ = some definition ∧
        definition.body.at? [1, 0] = some e ∧
        Eval.expr bracketedPass (Eval.invoke bracketedPass 9) e bracketedInside =
          (.matched, left) ∧ left.offset = 7 ∧
        Expr.Accepts (V := Nat) (.literal "nil" true) read cursor.rest ∧
        bracketedInside.cursor.Past read cursor ∧
        Eval.invoke bracketedPass 9 ⟨0⟩ { bracketedInside with cursor := cursor } =
          (.matched, left) := by
  have hbuild : bracketed.build = .ok bracketedGrammar := rfl
  rcases (whitespace_convention ⟨0⟩).2 bracketed bracketedGrammar rfl hbuild ⟨1⟩
    (.seq [.literal "[ " false, .optional (.literal "nil " true), .char ']']) rfl
    with ⟨definition, hdefinition, -, hplaces⟩
  rcases hplaces [1, 0] "nil" true rfl (by decide) with ⟨e, he, hmatched⟩
  cases hdefinition
  cases he
  have hrun : (Eval.expr bracketedPass (Eval.invoke bracketedPass 9)
      (.seq [.literal "nil" true, .rule ⟨0⟩]) bracketedInside).1 = .matched := by
    cbv
  rcases (hmatched bracketedPass.source bracketedPass.settings 9 bracketedInside _).1
    (Prod.ext hrun rfl) with ⟨read, cursor, haccepts, hpast, hleft⟩
  exact ⟨rfl, hbuild, _, _, read, cursor, _, rfl, rfl, Prod.ext hrun rfl, by cbv, haccepts, hpast,
    hleft⟩

end Draft

end Peg
