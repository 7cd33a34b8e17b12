import Peg.Proofs.Expr.Unlabeled
import Peg.Proofs.Grammar.Calls

/-!
# Grammars with dropped labels

Labels may be dropped anywhere in the bodies of a grammar.  The check of the rules does not
see them, so what was accepted with labels is accepted without.

Main results:

- `Check.check_eq_ok_of_unlabels`: rules are accepted whether they have labels or not.
- `Grammar.Unlabels.exists_build`: an accepted grammar is accepted without its labels.
-/

namespace Peg

variable {V : Type} {fits : Expr V → Expr V → Prop} {e e' : Expr V}

/-! ## Faults of expressions -/

/-- What is left faults as it did. -/
theorem Expr.Unlabels.localFault?_eq (h : Unlabels fits e e') (hkind : e.isLabel = e'.isLabel)
    (ruleCount : Nat) (name : String) :
    Check.localFault? ruleCount name e' = Check.localFault? ruleCount name e := by
  cases h with
  | drop label h =>
      cases e' with
      | label => rfl
      | _ => cases hkind
  | _ => rfl

/-- What is left loops without consuming anything if it did. -/
theorem Expr.Unlabels.isEmptyLoop_eq (h : Unlabels fits e e') (hkind : e.isLabel = e'.isLabel)
    (known : RuleId → Bool) : Check.isEmptyLoop known e' = Check.isEmptyLoop known e := by
  cases h with
  | star h | plus h => exact h.nullable_eq known
  | drop name h =>
      cases e' with
      | label => rfl
      | _ => cases hkind
  | _ => rfl

/-! ## Rules -/

/-- Labels in the body of a rule are dropped. -/
structure Rule.Unlabels (fits : Expr V → Expr V → Prop) (rule rule' : Rule V) : Prop where
  name_eq : rule'.name = rule.name
  options_eq : rule'.options = rule.options
  body : rule.body.Unlabels fits rule'.body

/-- Labels in the rules of a grammar are dropped. -/
def Grammar.Unlabels (fits : Expr V → Expr V → Prop) (grammar grammar' : Grammar V) : Prop :=
  List.Forall₂ (Rule.Unlabels fits) grammar.rules.toList grammar'.rules.toList

namespace Nullable

/-- Bodies that are nullable alike make the same rules nullable. -/
theorem sweep_congr {bodies bodies' : List (Expr V)}
    (h : List.Forall₂ (fun body body' => ∀ known, body'.nullable known = body.nullable known)
      bodies bodies') (known : List Bool) : sweep bodies' known = sweep bodies known := by
  rw [sweep, sweep]
  generalize 0 = first
  induction h generalizing first known with
  | nil => rfl
  | cons hbody hrest ih =>
      rw [List.zipIdx_cons, List.zipIdx_cons, List.foldl_cons, List.foldl_cons, ih, mark, mark,
        hbody]

/-- Rules whose bodies are nullable alike are nullable alike. -/
theorem rules_congr {bodies bodies' : List (Expr V)}
    (h : List.Forall₂ (fun body body' => ∀ known, body'.nullable known = body.nullable known)
      bodies bodies') : rules bodies' = rules bodies := by
  rw [rules, rules, h.length_eq]
  generalize bodies'.length = sweeps
  generalize List.replicate sweeps false = known
  induction sweeps generalizing known with
  | zero => rfl
  | succ sweeps ih => rw [settle, settle, sweep_congr h, ih]

end Nullable

/-- Labels lead nowhere by themselves. -/
theorem LeftRecursion.graph_congr {bodies bodies' : List (Expr V)}
    (h : List.Forall₂ (Expr.Unlabels fits) bodies bodies') (known : List Bool) :
    graph bodies' known = graph bodies known := by
  rw [graph, graph, h.length_eq]
  generalize bodies'.length = count
  induction h with
  | nil => rfl
  | cons hbody hrest ih => rw [List.map_cons, List.map_cons, hbody.leads_eq, ih]

namespace Check

variable {rules rules' : List (Rule V)}

/-- Rules by rules are bodies by bodies. -/
theorem forall₂_bodies (h : List.Forall₂ (Rule.Unlabels fits) rules rules') :
    List.Forall₂ (Expr.Unlabels fits) (bodies rules) (bodies rules') :=
  List.forall₂_map_left_iff.2 (List.forall₂_map_right_iff.2 (h.imp fun _ _ h => h.body))

/-- The same rules are nullable without labels. -/
theorem known_eq_of_unlabels (h : List.Forall₂ (Rule.Unlabels fits) rules rules') :
    known rules' = known rules :=
  Nullable.rules_congr ((forall₂_bodies h).imp fun _ _ h => h.nullable_eq)

/-- The same cycle of rules is found without labels. -/
theorem cycle?_eq_of_unlabels (h : List.Forall₂ (Rule.Unlabels fits) rules rules') :
    cycle? rules' = cycle? rules := by
  rw [cycle?, cycle?, known_eq_of_unlabels h, LeftRecursion.graph_congr (forall₂_bodies h)]

/-- Rules are accepted whether they have labels or not. -/
theorem check_eq_ok_of_unlabels (h : List.Forall₂ (Rule.Unlabels fits) rules rules')
    (hcheck : check rules = .ok ()) : check rules' = .ok () := by
  rcases check_eq_ok_iff.1 hcheck with ⟨hlocal, hloops, hcycle⟩
  refine check_eq_ok_iff.2 ⟨fun rule' hrule' x' hx' => ?_, fun rule' hrule' => ?_, ?_⟩
  · rcases Expr.exists_mem_of_forall₂ h rule' hrule' with ⟨rule, hrule, hbody⟩
    rcases hbody.body.exists_of_mem_subterms x' hx' with ⟨x, hx, hkind, hfrom⟩
    rw [hfrom.localFault?_eq hkind, hbody.name_eq, ← h.length_eq]
    exact hlocal rule hrule x hx
  · rcases Expr.exists_mem_of_forall₂ h rule' hrule' with ⟨rule, hrule, hbody⟩
    rw [known_eq_of_unlabels h, hasEmptyLoop, List.any_eq_false]
    intro x' hx'
    rcases hbody.body.exists_of_mem_subterms x' hx' with ⟨x, hx, hkind, hfrom⟩
    rw [hfrom.isEmptyLoop_eq hkind]
    exact List.any_eq_false.1 (hloops rule hrule) x hx
  · rw [cycle?_eq_of_unlabels h]
    exact hcycle

end Check

namespace Grammar

variable {grammar grammar' : Grammar V}

/-- A grammar without some labels has the same rules, but for their bodies. -/
theorem Unlabels.rule? (h : grammar.Unlabels fits grammar') (id : RuleId) :
    Option.Rel (Rule.Unlabels fits) (grammar.rule? id) (grammar'.rule? id) := by
  rw [Grammar.rule?, Grammar.rule?, ← Array.getElem?_toList, ← Array.getElem?_toList]
  rw [Grammar.Unlabels] at h
  generalize id.index = index
  generalize grammar.rules.toList = rules at h
  generalize grammar'.rules.toList = rules' at h
  induction h generalizing index with
  | nil => exact .none
  | cons hrule hrest ih =>
      cases index with
      | zero => exact .some hrule
      | succ index => exact ih index

theorem Unlabels.ruleName_eq (h : grammar.Unlabels fits grammar') (id : RuleId) :
    grammar'.ruleName id = grammar.ruleName id := by
  have hrule := h.rule? id
  rw [Grammar.ruleName, Grammar.ruleName]
  generalize grammar.rule? id = before at *
  generalize grammar'.rule? id = after at *
  cases hrule with
  | none => rfl
  | some hrule => exact hrule.name_eq

/-- An accepted grammar is accepted without its labels. -/
theorem Unlabels.exists_build {draft : Draft V} (h : grammar.Unlabels fits grammar')
    (hbuild : draft.build = .ok grammar) : ∃ draft' : Draft V, draft'.build = .ok grammar' := by
  rcases Draft.build_eq_ok_iff.1 hbuild with ⟨-, rules, -, hcheck, rfl⟩
  let pending (rule : Rule V) : DraftRule V := ⟨rule.name, some rule.body, rule.options⟩
  let draft' : Draft V := ⟨grammar'.rules.map pending, none, none, 0⟩
  have hfinished : draft'.rules.toList.mapM draft'.finishRule = .ok grammar'.rules.toList := by
    rw [Draft.mapM_finishRule_eq_ok_iff, Array.toList_map, List.map_map]
    rfl
  exact ⟨draft', Draft.build_eq_ok_iff.2
    ⟨rfl, grammar'.rules.toList, hfinished, Check.check_eq_ok_of_unlabels h hcheck, rfl⟩⟩

end Grammar

end Peg
