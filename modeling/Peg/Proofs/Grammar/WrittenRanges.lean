import Mathlib
import Peg.Proofs.Expr.Expansion
import Peg.Proofs.Grammar.Calls

/-!
# Ranges of characters in built grammars

A range of characters is written as an expression of its own or as a range of a set.  A grammar
that is built has the ranges that were passed to its calls, each as it was written.  The check
of the rules goes through all parts of the bodies and finds the ranges of the first kind that
are the wrong way round.  It does not look into sets: an inverted range of a set makes its way
into the grammar, where it holds no character.

Main results:

- `Expr.mem_subterms_expandWhitespace_iff`: expanding literals touches no range.
- `Call.exists_definition_of_body?` and `Call.exists_body?_of_definition`: the bodies of rules
  have the ranges of the bodies that were passed for them.
- `Draft.ranges_ordered_iff`: no range of a built grammar is inverted exactly if none is in a
  set that was passed to a call.
-/

namespace Peg

variable {V : Type}

/-! ## Ranges in expressions -/

namespace Expr

/-- The ranges that an expression writes by itself. -/
def ownRanges : Expr V → List (Char × Char)
  | range low high => [(low, high)]
  | oneOf set => set.ranges
  | _ => []

/-- The ranges that are written anywhere in an expression, those of sets included. -/
def ranges (e : Expr V) : List (Char × Char) :=
  e.subterms.flatMap ownRanges

variable {x e : Expr V}

/-- Expanding literals touches no range. -/
theorem mem_subterms_expandWhitespace_iff (whitespace : RuleId) (hx : x.ownRanges ≠ []) :
    x ∈ (e.expandWhitespace whitespace).subterms ↔ x ∈ e.subterms := by
  have hnone : ∀ other : Expr V, other.ownRanges = [] → x ≠ other := by
    rintro other hother rfl
    exact hx hother
  induction e using induction_children with
  | step e ih =>
      cases e with
      | literal text ignoreCase =>
          rw [expandWhitespace_literal]
          split
          next =>
              simp only [subterms, subtermsOf, List.mem_cons, List.append_nil,
                List.singleton_append, List.not_mem_nil, or_false]
              refine iff_of_false ?_ (hnone _ rfl)
              rintro (h | h | h)
              · exact hnone _ rfl h
              · exact hnone _ rfl h
              · exact hnone _ rfl h
          next => rfl
      | seq items | choice items =>
          rw [expandWhitespace, expandWhitespaceIn_eq_map, mem_subterms_iff, mem_subterms_iff,
            or_iff_right (hnone _ rfl), or_iff_right (hnone _ rfl)]
          simp only [children, List.mem_map, exists_exists_and_eq_and]
          exact exists_congr fun item => and_congr_right (ih item)
      | star body | plus body | optional body | notAhead body | ahead body | label name body =>
          rw [expandWhitespace, mem_subterms_iff, mem_subterms_iff, or_iff_right (hnone _ rfl),
            or_iff_right (hnone _ rfl)]
          simpa [children] using ih body List.mem_cons_self
      | _ => rfl

end Expr

/-! ## Ranges in bodies -/

namespace Call

variable {calls : List (Call V)} {id : RuleId} {body : Expr V}

/-- The body of a rule has the ranges of the body that was passed for it. -/
theorem exists_definition_of_body? (h : body? calls id = some body) :
    ∃ definition ∈ definitions calls, definition.id = id ∧
      ∀ x : Expr V, x.ownRanges ≠ [] → (x ∈ body.subterms ↔ x ∈ definition.body.subterms) := by
  rcases Option.map_eq_some_iff.1 h with ⟨definition, hfind, rfl⟩
  refine ⟨definition, List.mem_of_find?_eq_some hfind, by simpa using List.find?_some hfind,
    fun x hx => ?_⟩
  cases lastWhitespace? calls with
  | none => rfl
  | some whitespace => exact Expr.mem_subterms_expandWhitespace_iff whitespace hx

/-- A body that is passed is the body of its rule, if no other body is passed for that rule. -/
theorem exists_body?_of_definition (honce : ((definitions calls).map Definition.id).Nodup)
    {definition : Definition V} (h : definition ∈ definitions calls) :
    ∃ body, body? calls definition.id = some body ∧
      ∀ x : Expr V, x.ownRanges ≠ [] → (x ∈ body.subterms ↔ x ∈ definition.body.subterms) := by
  have hsome : (body? calls definition.id).isSome = true := by
    rw [body?, Option.isSome_map, List.find?_isSome]
    exact ⟨definition, h, decide_eq_true rfl⟩
  rcases Option.isSome_iff_exists.1 hsome with ⟨body, hbody⟩
  rcases exists_definition_of_body? hbody with ⟨other, hother, hid, hparts⟩
  obtain rfl := List.inj_on_of_nodup_map honce hother h hid
  exact ⟨body, hbody, hparts⟩

end Call

namespace Draft

variable {calls : List (Call V)} {grammar : Grammar V}

/-! ## Ranges in grammars -/

/-- The bodies of a grammar are those that were asked for. -/
theorem bodyIn_of_build (h : (ofCalls calls).build = .ok grammar) :
    Nullable.bodyIn (Check.bodies grammar.rules.toList) = Call.body? calls := by
  rcases build_eq_ok_iff.1 h with ⟨hfault, rules, hrules, -, rfl⟩
  rw [bodyIn_of_map_finished? (mapM_finishRule_eq_ok_iff.1 hrules), finishedBody?_ofCalls hfault]

/-- Of the ranges of a grammar, those that were not passed in a set are as they should be. -/
theorem ordered_of_build (h : (ofCalls calls).build = .ok grammar) {id : RuleId} {body : Expr V}
    (hbody : Call.body? calls id = some body) {low high : Char}
    (hrange : .range low high ∈ body.subterms) : low ≤ high := by
  rcases build_eq_ok_iff.1 h with ⟨-, rules, -, hcheck, rfl⟩
  rw [← bodyIn_of_build h] at hbody
  exact (Check.check_eq_ok_iff_wellFormed.1 hcheck).ranges id body hbody low high hrange

/-- A grammar that is built has no inverted range, neither as an expression nor in a set and
however deep in its bodies, exactly if there is none in the sets that were passed to the calls:
an inverted range of the first kind is refused, one of the second is not. -/
theorem ranges_ordered_iff (h : (ofCalls calls).build = .ok grammar) :
    (∀ rule ∈ grammar.rules, ∀ range ∈ rule.body.ranges, range.1 ≤ range.2) ↔
      ∀ definition ∈ Call.definitions calls, ∀ set, .oneOf set ∈ definition.body.subterms →
        ∀ range ∈ set.ranges, range.1 ≤ range.2 := by
  have hbodies : (∀ rule ∈ grammar.rules, ∀ range ∈ rule.body.ranges, range.1 ≤ range.2) ↔
      ∀ id body, Call.body? calls id = some body → ∀ range ∈ body.ranges, range.1 ≤ range.2 := by
    rw [← bodyIn_of_build h, Check.forall_body_iff]
    simp only [Array.mem_toList_iff]
  rw [hbodies]
  constructor
  · intro hordered definition hdefinition set hset range hrange
    have hfaultless := (reflects_ofCalls calls).fault.1 (build_eq_ok_iff.1 h).1
    rcases Call.exists_body?_of_definition hfaultless.once hdefinition with ⟨body, hbody, hparts⟩
    have hpart : .oneOf set ∈ body.subterms := (hparts _ (List.ne_nil_of_mem hrange)).2 hset
    exact hordered _ body hbody range (List.mem_flatMap.2 ⟨_, hpart, hrange⟩)
  · intro hsets id body hbody range hrange
    rcases List.mem_flatMap.1 hrange with ⟨part, hpart, hown⟩
    cases part with
    | range low high =>
        obtain rfl := List.mem_singleton.1 hown
        exact ordered_of_build h hbody hpart
    | oneOf set =>
        rcases Call.exists_definition_of_body? hbody with ⟨definition, hdefinition, -, hparts⟩
        exact hsets definition hdefinition set
          ((hparts _ (List.ne_nil_of_mem hown)).1 hpart) range hown
    | _ => cases hown

/-- Ranges of both kinds, below lookahead and beside a literal that is expanded. -/
theorem ranges_ordered_iff_words :
    let set : CharSet := (CharSet.ofRanges [('0', '9')]).withRange '_' '_'
    let calls : List (Call Nat) := [.rule "blank" (.star (.char ' ')), .setWhitespace ⟨0⟩,
      .rule "word" (.seq [.literal "let " false, .notAhead (.oneOf set), .plus (.range 'a' 'z')])]
    let word : Expr Nat := .seq [.seq [.literal "let" false, .rule ⟨0⟩], .notAhead (.oneOf set),
      .plus (.range 'a' 'z')]
    let grammar : Grammar Nat := ⟨#[⟨"blank", .star (.char ' '), {}⟩, ⟨"word", word, {}⟩]⟩
    (ofCalls calls).build = .ok grammar ∧ word.ranges = [('0', '9'), ('_', '_'), ('a', 'z')] ∧
      ∀ rule ∈ grammar.rules, ∀ range ∈ rule.body.ranges, range.1 ≤ range.2 := by
  intro set calls word grammar
  have hbuild : (ofCalls calls).build = .ok grammar := by cbv
  refine ⟨hbuild, rfl, (ranges_ordered_iff hbuild).2 ?_⟩
  have hdefinitions : Call.definitions calls = [⟨⟨0⟩, .star (.char ' '), 1⟩, ⟨⟨1⟩,
      .seq [.literal "let " false, .notAhead (.oneOf set), .plus (.range 'a' 'z')], 2⟩] := by
    cbv
  rw [hdefinitions]
  intro definition hdefinition other hother
  have hsame : other = set := by
    rcases List.mem_pair.1 hdefinition with rfl | rfl
    · simp [Expr.subterms] at hother
    · simpa [Expr.subterms, Expr.subtermsOf] using hother
  rw [hsame]
  decide

/-- A grammar whose only range is one of a set and the wrong way round: the set holds no
character. -/
theorem ranges_unordered_set :
    let set : CharSet := CharSet.ofRanges [('z', 'a')]
    let grammar : Grammar Nat := ⟨#[⟨"letter", .oneOf set, {}⟩]⟩
    (ofCalls [.rule "letter" (.oneOf set)]).build = .ok grammar ∧
      (∃ rule ∈ grammar.rules, ∃ range ∈ rule.body.ranges, ¬ range.1 ≤ range.2) ∧
      ∀ c, set.matches c = false := by
  intro set grammar
  refine ⟨by cbv, ⟨_, Array.mem_singleton_self _, ('z', 'a'), List.mem_singleton_self _, by decide⟩,
    fun c => Bool.eq_false_iff.2 fun h => ?_⟩
  have hbetween : 'z' ≤ c ∧ c ≤ 'a' := by
    simpa [set, CharSet.matches, CharSet.ofRanges, CharSet.inRange] using h
  exact absurd (Char.le_trans hbetween.1 hbetween.2) (by decide)

end Draft

end Peg
