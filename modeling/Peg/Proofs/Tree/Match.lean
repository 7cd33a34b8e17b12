import Peg.Proofs.Parse.Derivation

/-!
# How a match came about

What matched in a match, as data: one item for each terminal, action, lookahead, label and
rule that belongs to it, nested as they were matched.  Alternatives that did not match,
attempts that were given up and mismatches that were remembered leave nothing in it.  The
options of the rules say what of it becomes a node of a parse tree.

Main results:

- `Match.forest`: the nodes that a match stands for.
- `Yields`: which match an evaluation comes to.
- `Derives.exists_yields`: every evaluation that matches comes to one.
-/

namespace Peg

open Text Eval

variable {V : Type}

/-! ## Matches -/

/-- How a match came about. -/
inductive Match where
  /-- A terminal, matched or stood in for. -/
  | terminal (span : Span)
  /-- An action that accepted. -/
  | action
  /-- A lookahead that saw what it was to see. -/
  | lookahead
  /-- The end of a sequence or a repetition, or an option that was not taken. -/
  | nothing
  /-- A part of a sequence or a repetition, and the rest of it. -/
  | chain (first rest : Match)
  /-- A label over what it names. -/
  | label (name : String) (span : Span) (body : Match)
  /-- A rule over its body. -/
  | rule (id : RuleId) (span : Span) (body : Match)
  deriving Repr

/-- The forest of a rule that matched, given that of its body.  Nothing of the body is
kept if the nodes below the rule are suppressed; what is kept stands below a node of the
rule, or in its place if that is skipped; and nothing at all is left if the rule is
suppressed itself. -/
def Rule.forest (rule : Rule V) (id : RuleId) (span : Span) (below : List Tree) : List Tree :=
  let kept := if rule.options.suppressSubnodes then [] else below
  if rule.options.suppressNode then []
  else if rule.options.skipNode then kept
  else [.node rule.name span (some id) kept]

namespace Match

/-- The forest of a match. -/
def forest (grammar : Grammar V) : Match → List Tree
  | terminal _ | action | lookahead | nothing => []
  | chain first rest => first.forest grammar ++ rest.forest grammar
  | label name span body => [.node name span none (body.forest grammar)]
  | rule id span body =>
    match grammar.rule? id with
    | none => []
    | some definition => definition.forest id span (body.forest grammar)

/-- A match reaches from one offset to another, its parts one after another. -/
inductive Spans : Match → Nat → Nat → Prop
  | terminal {start stop : Nat} (hle : start ≤ stop) : Spans (terminal ⟨start, stop⟩) start stop
  | action (place : Nat) : Spans action place place
  | lookahead (place : Nat) : Spans lookahead place place
  | nothing (place : Nat) : Spans nothing place place
  | chain {first rest : Match} {start middle stop : Nat} (hfirst : Spans first start middle)
      (hrest : Spans rest middle stop) : Spans (chain first rest) start stop
  | label {name : String} {body : Match} {start stop : Nat} (hbody : Spans body start stop) :
      Spans (label name ⟨start, stop⟩ body) start stop
  | rule {id : RuleId} {body : Match} {start stop : Nat} (hbody : Spans body start stop) :
      Spans (rule id ⟨start, stop⟩ body) start stop

end Match

/-! ## The match of an evaluation -/

/-- An evaluation matches, and comes to a match. -/
inductive Yields (env : Env V) : Nat → Task V → Machine V → Match → Prop
  | terminal {a : Nat} {e : Expr V} {m left : Machine V} (hterminal : e.isTerminal = true)
      (hmatched : (Task.expr e).run env a m = (.matched, left)) :
      Yields env a (.expr e) m (.terminal ⟨m.offset, left.offset⟩)
  | action {a : Nat} {action : Action V} {m left : Machine V}
      (hmatched : runAction env action (Span.emptyAt m.offset) false m = (.matched, left)) :
      Yields env a (.expr (.action action)) m .action
  | seq {a : Nat} {items : List (Expr V)} {m : Machine V} {found : Match}
      (hitems : Yields env a (.items m.offset m.committed items (Span.emptyAt m.offset) false) m
        found) :
      Yields env a (.expr (.seq items)) m found
  | done {a start : Nat} {inherited : Bool} {previous : Span} {synthetic : Bool}
      {m : Machine V} : Yields env a (.items start inherited [] previous synthetic) m .nothing
  | act {a start : Nat} {inherited : Bool} {action : Action V} {items : List (Expr V)}
      {previous : Span} {synthetic : Bool} {m left : Machine V} {rest : Match}
      (hact : runAction env action previous synthetic m = (.matched, left))
      (hrest : Yields env a (.items start inherited items previous synthetic) left rest) :
      Yields env a (.items start inherited (.action action :: items) previous synthetic) m
        (.chain .action rest)
  | part {a start : Nat} {inherited : Bool} {item : Expr V} {items : List (Expr V)}
      {previous : Span} {synthetic : Bool} {m left : Machine V} {first rest : Match}
      (hitem : item.isAction = false)
      (hfirst : Yields env a (.expr item) { m with committed := inherited || start < m.offset }
        first)
      (hmatched : (Task.expr item).run env a
        { m with committed := inherited || start < m.offset } = (.matched, left))
      (hrest : Yields env a (.items start inherited items ⟨m.offset, left.offset⟩
        (Span.isEmpty ⟨m.offset, left.offset⟩ && m.inserted < left.inserted)) left rest) :
      Yields env a (.items start inherited (item :: items) previous synthetic) m
        (.chain first rest)
  -- Of the rounds of a choice only the one that matched counts.
  | choice_once {a : Nat} {items : List (Expr V)} {m : Machine V} {found : Match}
      (honce : takesTwoRounds env m = false) (hround : Yields env a (.alternatives items) m found) :
      Yields env a (.expr (.choice items)) m found
  | choice_first {a : Nat} {items : List (Expr V)} {m : Machine V} {found : Match}
      (htwo : takesTwoRounds env m = true)
      (hround : Yields env a (.alternatives items) (openRound m) found) :
      Yields env a (.expr (.choice items)) m found
  | choice_second {a : Nat} {items : List (Expr V)} {m left : Machine V} {found : Match}
      (htwo : takesTwoRounds env m = true)
      (hfirst : (Task.alternatives items).run env a (openRound m) = (.mismatched, left))
      (hnoted : left.wouldInsert = true)
      (hround : Yields env a (.alternatives items) (undoRound m left) found) :
      Yields env a (.expr (.choice items)) m found
  | alternative {a : Nat} {item : Expr V} {items : List (Expr V)} {m : Machine V} {found : Match}
      (hitem : Yields env a (.expr item) m found) :
      Yields env a (.alternatives (item :: items)) m found
  | alternative_next {a : Nat} {item : Expr V} {items : List (Expr V)} {m left : Machine V}
      {found : Match} (hmore : items ≠ [])
      (hmismatched : (Task.expr item).run env a m = (.mismatched, left))
      (hrest : Yields env a (.alternatives items) left.backtrack found) :
      Yields env a (.alternatives (item :: items)) m found
  | star {a : Nat} {body : Expr V} {m : Machine V} {found : Match}
      (hmany : Yields env a (.many body) m found) : Yields env a (.expr (.star body)) m found
  | many_next {a : Nat} {body : Expr V} {m left : Machine V} {first rest : Match}
      (hfirst : Yields env a (.expr body) { m with committed := false } first)
      (hmatched : (Task.expr body).run env a { m with committed := false } = (.matched, left))
      (hless : remaining env left < remaining env m)
      (hrest : Yields env a (.many body) left rest) :
      Yields env a (.many body) m (.chain first rest)
  -- An iteration that consumes nothing is the last one.
  | many_last {a : Nat} {body : Expr V} {m left : Machine V} {found : Match}
      (hlast : Yields env a (.expr body) { m with committed := false } found)
      (hmatched : (Task.expr body).run env a { m with committed := false } = (.matched, left))
      (hends : ¬ remaining env left < remaining env m) : Yields env a (.many body) m found
  | many_end {a : Nat} {body : Expr V} {m left : Machine V}
      (hmismatched : (Task.expr body).run env a { m with committed := false } =
        (.mismatched, left)) :
      Yields env a (.many body) m .nothing
  | plus_next {a : Nat} {body : Expr V} {m left : Machine V} {first rest : Match}
      (hfirst : Yields env a (.expr body) m first)
      (hmatched : (Task.expr body).run env a m = (.matched, left))
      (hless : remaining env left < remaining env m)
      (hrest : Yields env a (.many body) left rest) :
      Yields env a (.expr (.plus body)) m (.chain first rest)
  | plus_last {a : Nat} {body : Expr V} {m left : Machine V} {found : Match}
      (hlast : Yields env a (.expr body) m found)
      (hmatched : (Task.expr body).run env a m = (.matched, left))
      (hends : ¬ remaining env left < remaining env m) :
      Yields env a (.expr (.plus body)) m found
  | optional {a : Nat} {body : Expr V} {m : Machine V} {found : Match}
      (hbody : Yields env a (.expr body) { m with committed := false } found) :
      Yields env a (.expr (.optional body)) m found
  | optional_none {a : Nat} {body : Expr V} {m left : Machine V}
      (hmismatched : (Task.expr body).run env a { m with committed := false } =
        (.mismatched, left)) :
      Yields env a (.expr (.optional body)) m .nothing
  | notAhead {a : Nat} {body : Expr V} {m left : Machine V}
      (hmismatched : (Task.expr body).run env a (openProbe m) = (.mismatched, left)) :
      Yields env a (.expr (.notAhead body)) m .lookahead
  | ahead {a : Nat} {body : Expr V} {m left : Machine V}
      (hmatched : (Task.expr body).run env a (openProbe m) = (.matched, left)) :
      Yields env a (.expr (.ahead body)) m .lookahead
  | label {a : Nat} {name : String} {body : Expr V} {m left : Machine V} {found : Match}
      (hbody : Yields env a (.expr body) (openLabel name m) found)
      (hmatched : (Task.expr body).run env a (openLabel name m) = (.matched, left)) :
      Yields env a (.expr (.label name body)) m (.label name ⟨m.offset, left.offset⟩ found)
  | rule {a : Nat} {id : RuleId} {m : Machine V} {found : Match}
      (hcall : Yields env a (.call id) m found) : Yields env a (.expr (.rule id)) m found
  | body {a : Nat} {id : RuleId} {definition : Rule V} {m left : Machine V} {found : Match}
      (hdefinition : env.grammar.rule? id = some definition)
      (hknown : known? env id definition m = none)
      (hbody : Yields env a (.expr definition.body)
        (enterRule id definition (countMiss env definition m)) found)
      (hmatched : (Task.expr definition.body).run env a
        (enterRule id definition (countMiss env definition m)) = (.matched, left)) :
      Yields env (a + 1) (.call id) m (.rule id ⟨m.offset, left.offset⟩ found)

variable {env : Env V} {a : Nat} {task : Task V} {m : Machine V} {o : Verdict × Machine V}
variable {made : List StandIn}

/-- An outcome that is a match. -/
theorem Derives.run_of_matched (h : Derives env a task m o made) (hmatched : o.1 = .matched) :
    task.run env a m = (.matched, o.2) :=
  h.run_eq.trans (Prod.ext hmatched rfl)

/-- Every evaluation that matches comes to a match. -/
theorem Derives.exists_yields (h : Derives env a task m o made) (hmatched : o.1 = .matched) :
    ∃ found, Yields env a task m found := by
  induction h with
  | terminal hterminal =>
      exact ⟨_, .terminal hterminal ((Derives.terminal hterminal).run_of_matched hmatched)⟩
  | action =>
      rw [fst_rewinding] at hmatched
      exact ⟨_, .action (Prod.ext hmatched rfl)⟩
  | seq hitems ih =>
      rcases ih (by simpa using hmatched) with ⟨found, hfound⟩
      exact ⟨_, .seq hfound⟩
  | done => exact ⟨_, .done⟩
  | act_next hact hrest ih =>
      rcases ih hmatched with ⟨rest, hrest⟩
      exact ⟨_, .act hact hrest⟩
  | act_last hends => exact absurd hmatched hends
  | part_next hitem hpart hrest ihpart ihrest =>
      rcases ihpart rfl with ⟨first, hfirst⟩
      rcases ihrest hmatched with ⟨rest, hrest⟩
      exact ⟨_, .part hitem hfirst hpart.run_eq hrest⟩
  | part_last hitem hpart hends ih => exact absurd hmatched hends
  | choice_once honce hround ih =>
      rcases ih (by simpa using hmatched) with ⟨found, hfound⟩
      exact ⟨_, .choice_once honce hfound⟩
  | choice_first htwo hround hends ih =>
      rcases ih (by simpa using hmatched) with ⟨found, hfound⟩
      exact ⟨_, .choice_first htwo hfound⟩
  | choice_second htwo hround hnoted hagain ihround ihagain =>
      rcases ihagain (by simpa using hmatched) with ⟨found, hfound⟩
      exact ⟨_, .choice_second htwo hround.run_eq hnoted hfound⟩
  | no_alternative | unknown | limit | hit => cases hmatched
  | alternative_next hmore hfirst hrest ihfirst ihrest =>
      rcases ihrest hmatched with ⟨found, hfound⟩
      exact ⟨_, .alternative_next hmore hfirst.run_eq hfound⟩
  | alternative_last hends hfirst ih =>
      rcases ih hmatched with ⟨found, hfound⟩
      exact ⟨_, .alternative hfound⟩
  | star hmany ih =>
      rcases ih (by simpa using hmatched) with ⟨found, hfound⟩
      exact ⟨_, .star hfound⟩
  | many_next hfirst hless hrest ihfirst ihrest =>
      rcases ihfirst rfl with ⟨first, hfound⟩
      rcases ihrest hmatched with ⟨rest, hrest⟩
      exact ⟨_, .many_next hfound hfirst.run_eq hless hrest⟩
  | @many_last a body m o made hfirst hends ih =>
      rcases o with ⟨_ | _ | error, left⟩
      · rcases ih rfl with ⟨found, hfound⟩
        exact ⟨_, .many_last hfound hfirst.run_eq (hends rfl)⟩
      · exact ⟨_, .many_end hfirst.run_eq⟩
      · cases hmatched
  | plus_next hfirst hless hrest ihfirst ihrest =>
      rcases ihfirst rfl with ⟨first, hfound⟩
      rcases ihrest (by simpa using hmatched) with ⟨rest, hrest⟩
      exact ⟨_, .plus_next hfound hfirst.run_eq hless hrest⟩
  | plus_last hfirst hends ih =>
      rw [fst_rewinding, fst_keepingCommitment] at hmatched
      rcases ih hmatched with ⟨found, hfound⟩
      exact ⟨_, .plus_last hfound (hfirst.run_of_matched hmatched) (hends hmatched)⟩
  | @optional a body m o made hbody ih =>
      rw [fst_rewinding] at hmatched
      rcases o with ⟨_ | _ | error, left⟩
      · rcases ih rfl with ⟨found, hfound⟩
        exact ⟨_, .optional hfound⟩
      · exact ⟨_, .optional_none hbody.run_eq⟩
      · cases hmatched
  | @notAhead a body m o made hbody ih =>
      rw [fst_rewinding, fst_ahead] at hmatched
      rcases o with ⟨_ | _ | error, left⟩
      · cases hmatched
      · exact ⟨_, .notAhead hbody.run_eq⟩
      · cases hmatched
  | @ahead a body m o made hbody ih =>
      rw [fst_rewinding, fst_ahead] at hmatched
      rcases o with ⟨_ | _ | error, left⟩
      · exact ⟨_, .ahead hbody.run_eq⟩
      · cases hmatched
      · cases hmatched
  | label hbody ih =>
      rw [fst_rewinding, fst_labeled] at hmatched
      rcases ih hmatched with ⟨found, hfound⟩
      exact ⟨_, .label hfound (hbody.run_of_matched hmatched)⟩
  | rule hcall ih =>
      rcases ih (by simpa using hmatched) with ⟨found, hfound⟩
      exact ⟨_, .rule hfound⟩
  | body hdefinition hknown hbody ih =>
      rw [fst_body] at hmatched
      rcases ih hmatched with ⟨found, hfound⟩
      exact ⟨_, .body hdefinition hknown hfound (hbody.run_of_matched hmatched)⟩

/-! ## The match of a pass -/

/-- A pass matches, and comes to a match. -/
def PassYields (env : Env V) (root : RuleId) (found : Match) : Prop :=
  Yields env env.settings.maxDepth (.call root) (passStart env) found

theorem exists_passYields {root : RuleId} (hmatched : (runPass env root).1 = .matched) :
    ∃ found, PassYields env root found := by
  rcases exists_passMakes env root with ⟨made, hmade⟩
  exact Derives.exists_yields hmade hmatched

end Peg
