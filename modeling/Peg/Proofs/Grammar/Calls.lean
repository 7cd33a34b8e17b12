import Mathlib.Data.List.Basic
import Mathlib.Data.List.Induction
import Peg.Proofs.Grammar.WellFormed

/-!
# Which calls make a grammar

A draft is made by calls, one after another.  What the calls come to can be read off the
list of them: the names they register, the bodies they give to rules, and the rule they
choose for the spaces that end literals.  A grammar can be built exactly if each body was
given to a rule that was registered by then and had none yet, every rule got one, and the
bodies are well-formed once their literals have been expanded.

Main results:

- `Draft.reflects_ofCalls`: a draft holds what was asked for by its calls.
- `Draft.exists_build_ofCalls_iff`: from which calls a grammar can be built.
-/

namespace Peg

variable {V : Type}

/-- A call on a draft. -/
inductive Call (V : Type) where
  /-- Register a rule under a name. -/
  | declare (name : String)
  /-- Give a rule its body. -/
  | define (id : RuleId) (body : Expr V)
  /-- Register a rule and give it its body. -/
  | rule (name : String) (body : Expr V)
  /-- Register a rule, give it its body and set its options. -/
  | ruleWith (name : String) (options : RuleOptions) (body : Expr V)
  /-- Set the options of a rule. -/
  | setOptions (id : RuleId) (options : RuleOptions)
  /-- Choose the rule for the spaces that end literals. -/
  | setWhitespace (id : RuleId)
  /-- Hand out a variable. -/
  | newVar

namespace Draft

/-- The draft after a call. -/
def step (draft : Draft V) : Call V → Draft V
  | .declare name => (draft.declare name).2
  | .define id body => draft.define id body
  | .rule name body => (draft.rule name body).2
  | .ruleWith name options body => (draft.ruleWith name options body).2
  | .setOptions id options => draft.setOptions id options
  | .setWhitespace id => draft.setWhitespace id
  | .newVar => draft.newVar.2

/-- The draft that calls make. -/
def ofCalls (calls : List (Call V)) : Draft V :=
  calls.foldl step empty

theorem ofCalls_append_singleton (calls : List (Call V)) (call : Call V) :
    ofCalls (calls ++ [call]) = (ofCalls calls).step call :=
  List.foldl_append ..

end Draft

namespace Call

/-! ## What calls ask for -/

/-- The name under which a call registers a rule. -/
def name? : Call V → Option String
  | declare name | rule name _ | ruleWith name _ _ => some name
  | _ => none

/-- The rule that a call chooses for the spaces that end literals. -/
def whitespace? : Call V → Option RuleId
  | setWhitespace id => some id
  | _ => none

/-- The names of the rules that calls register, in the order of their numbers: a name
that comes again stands for the same rule. -/
def names (calls : List (Call V)) : List String :=
  (calls.filterMap name?).eraseDups

/-- A body that is given to a rule. -/
structure Definition (V : Type) where
  /-- The rule. -/
  id : RuleId
  /-- The body. -/
  body : Expr V
  /-- How many rules were registered by then. -/
  registered : Nat

/-- The body that a call gives to a rule, and how many rules are registered then, given
the calls in front of it. -/
def definition? (before : List (Call V)) (call : Call V) : Option (Definition V) :=
  match call with
  | define id body => some ⟨id, body, (names (before ++ [call])).length⟩
  | rule name body | ruleWith name _ body =>
    some ⟨⟨(names before).idxOf name⟩, body, (names (before ++ [call])).length⟩
  | _ => none

/-- The bodies that calls give to rules, given the calls in front of them. -/
def definitionsAfter (before : List (Call V)) : List (Call V) → List (Definition V)
  | [] => []
  | call :: calls =>
    (call.definition? before).toList ++ definitionsAfter (before ++ [call]) calls

/-- The bodies that calls give to rules. -/
def definitions (calls : List (Call V)) : List (Definition V) :=
  definitionsAfter [] calls

/-- The rule that is chosen last for the spaces that end literals. -/
def lastWhitespace? (calls : List (Call V)) : Option RuleId :=
  (calls.filterMap whitespace?).getLast?

/-- The body of a rule, with its literals expanded. -/
def body? (calls : List (Call V)) (id : RuleId) : Option (Expr V) :=
  ((definitions calls).find? (·.id = id)).map fun definition =>
    match lastWhitespace? calls with
    | some whitespace => definition.body.expandWhitespace whitespace
    | none => definition.body

/-- Bodies are given to rules that exist by then, and to each of them once. -/
structure Definition.Faultless (definitions : List (Definition V)) : Prop where
  registered : ∀ definition ∈ definitions, definition.id.index < definition.registered
  once : (definitions.map Definition.id).Nodup

/-- Calls give every rule a body, and all bodies are sound. -/
structure Sound (calls : List (Call V)) : Prop where
  faultless : Definition.Faultless (definitions calls)
  defined : ∀ id, id.index < (names calls).length → (body? calls id).isSome = true
  wellFormed : WellFormed (names calls).length (body? calls)

/-! ## One more call -/

/-- Names with one more, unless it is among them. -/
def register (names : List String) (name : String) : List String :=
  if name ∈ names then names else names ++ [name]

/-- A last name is registered, unless it has been. -/
theorem eraseDups_append_singleton (names : List String) (name : String) :
    (names ++ [name]).eraseDups = register names.eraseDups name := by
  rw [List.eraseDups_append, List.removeAll, register]
  by_cases hmem : name ∈ names
  · simp [hmem]
  · simp [hmem, List.eraseDups_cons]

/-- The names with one more call. -/
theorem names_append_singleton (calls : List (Call V)) (call : Call V) :
    names (calls ++ [call]) = match call.name? with
      | some name => register (names calls) name
      | none => names calls := by
  rw [names, List.filterMap_append]
  cases hname : call.name? with
  | none => simp [hname, names]
  | some name =>
      rw [List.filterMap_cons_some hname]
      exact eraseDups_append_singleton _ name

/-- A last call may define a rule, as the calls in front of it have it. -/
theorem definitionsAfter_append_singleton (before calls : List (Call V)) (call : Call V) :
    definitionsAfter before (calls ++ [call]) =
      definitionsAfter before calls ++ (call.definition? (before ++ calls)).toList := by
  induction calls generalizing before with
  | nil => simp [definitionsAfter]
  | cons first calls ih => simp [definitionsAfter, ih]

/-- The bodies with one more call. -/
theorem definitions_append_singleton (calls : List (Call V)) (call : Call V) :
    definitions (calls ++ [call]) = definitions calls ++ (call.definition? calls).toList :=
  definitionsAfter_append_singleton [] calls call

/-- The choice with one more call. -/
theorem lastWhitespace?_append_singleton (calls : List (Call V)) (call : Call V) :
    lastWhitespace? (calls ++ [call]) = call.whitespace?.or (lastWhitespace? calls) := by
  rw [lastWhitespace?, lastWhitespace?, List.filterMap_append]
  cases hchoice : call.whitespace? with
  | none => simp [hchoice]
  | some id => simp [hchoice]

/-- What was at fault stays so with one more body. -/
theorem Definition.Faultless.of_append {definitions : List (Definition V)}
    {definition : Definition V} (h : Faultless (definitions ++ [definition])) :
    Faultless definitions where
  registered other hmem := h.registered other (List.mem_append_left _ hmem)
  once := by
    have honce := h.once
    rw [List.map_append] at honce
    exact (List.nodup_append.1 honce).1

/-- Nothing is at fault with a body that is given to a rule which exists and has none. -/
theorem Definition.Faultless.append {definitions : List (Definition V)} {id : RuleId}
    {body : Expr V} {registered : Nat} (h : Faultless definitions)
    (hfree : definitions.find? (·.id = id) = none) (hlt : id.index < registered) :
    Faultless (definitions ++ [⟨id, body, registered⟩]) where
  registered definition hdefinition := by
    rcases List.mem_append.1 hdefinition with hold | hnew
    · exact h.registered definition hold
    · rw [List.mem_singleton.1 hnew]
      exact hlt
  once := by
    rw [List.map_append, List.nodup_append]
    refine ⟨h.once, List.pairwise_singleton .., ?_⟩
    rintro _ hold _ hnew rfl
    rcases List.mem_map.1 hold with ⟨definition, hdefinition, hid⟩
    refine List.find?_eq_none.1 hfree definition hdefinition (decide_eq_true ?_)
    rw [hid, List.mem_singleton.1 hnew]

end Call

namespace Draft

open Call

/-- Once a fault is noted there is one. -/
theorem note_fault?_ne_none (draft : Draft V) (fault : GrammarError) :
    (draft.note fault).fault? ≠ none := by
  unfold note
  cases draft.fault? <;> nofun

/-! ## What a draft holds -/

/-- A draft holds the names and the bodies that were asked for, as long as nothing was at
fault, and it knows whether something was. -/
structure Reflects (names : List String) (definitions : List (Definition V))
    (whitespace? : Option RuleId) (draft : Draft V) : Prop where
  map_name : draft.rules.toList.map DraftRule.name = names
  whitespace : draft.whitespace? = whitespace?
  registered : ∀ definition ∈ definitions, definition.registered ≤ names.length
  fault : draft.fault? = none ↔ Definition.Faultless definitions
  bodies : draft.fault? = none → ∀ (id : RuleId) rule, draft.rules[id.index]? = some rule →
    rule.body? = (definitions.find? (·.id = id)).map Definition.body

variable {names : List String} {definitions : List (Definition V)} {whitespace? : Option RuleId}
variable {draft : Draft V}

/-- Without calls nothing is registered or defined. -/
theorem reflects_empty : Reflects [] [] none (empty : Draft V) where
  map_name := rfl
  whitespace := rfl
  registered := nofun
  fault := iff_of_true rfl ⟨nofun, .nil⟩
  bodies := by
    intro _ id rule hrule
    simp [empty] at hrule

namespace Reflects

/-- There is one rule for each registered name. -/
theorem size_eq (h : Reflects names definitions whitespace? draft) :
    draft.rules.size = names.length := by
  rw [← h.map_name, List.length_map, Array.length_toList]

/-- A rule is found under its name. -/
theorem ruleId?_eq (h : Reflects names definitions whitespace? draft) (name : String) :
    draft.ruleId? name = if name ∈ names then some ⟨names.idxOf name⟩ else none := by
  have hfind : draft.rules.toList.findIdx? (·.name == name) = names.findIdx? (· == name) := by
    rw [← h.map_name, List.findIdx?_map]
    rfl
  rw [ruleId?, hfind]
  split
  next hmem =>
      rw [List.findIdx?_eq_some_iff_findIdx_eq.2 ⟨List.idxOf_lt_length_iff.2 hmem, rfl⟩]
      rfl
  next hnew =>
      rw [List.findIdx?_eq_none_iff.2 fun other hother => ?_]
      · rfl
      · exact beq_eq_false_iff_ne.2 fun hsame => hnew (hsame ▸ hother)

/-- No body is given to a rule before there is one of its number. -/
theorem find?_eq_none (h : Reflects names definitions whitespace? draft)
    (hfault : draft.fault? = none) {id : RuleId} (hle : names.length ≤ id.index) :
    definitions.find? (·.id = id) = none := by
  refine List.find?_eq_none.2 fun definition hdefinition hid => ?_
  have hlt := (h.fault.1 hfault).registered definition hdefinition
  have hregistered := h.registered definition hdefinition
  rw [of_decide_eq_true hid] at hlt
  omega

/-- A declared rule is the one of its name. -/
theorem fst_declare (h : Reflects names definitions whitespace? draft) (name : String) :
    (draft.declare name).1 = ⟨names.idxOf name⟩ := by
  rw [Draft.declare, h.ruleId?_eq]
  split
  next hid =>
      split at hid
      next => exact (Option.some.inj hid).symm
      next => cases hid
  next hnone =>
      split at hnone
      next => cases hnone
      next hnew => rw [List.idxOf_eq_length_iff.2 hnew, h.size_eq]

/-- A declaration registers a name and defines nothing. -/
theorem declare (h : Reflects names definitions whitespace? draft) (name : String) :
    Reflects (register names name) definitions whitespace? (draft.declare name).2 := by
  rw [Draft.declare, h.ruleId?_eq, register]
  by_cases hmem : name ∈ names
  · simp only [hmem, if_true]
    exact h
  · simp only [hmem, if_false]
    constructor
    · simp [h.map_name]
    · exact h.whitespace
    · exact fun definition hdefinition =>
        Nat.le_trans (h.registered definition hdefinition) (by simp)
    · exact h.fault
    · intro hfault id rule hrule
      rw [Array.getElem?_push] at hrule
      split at hrule
      next hlast =>
          cases hrule
          rw [h.find?_eq_none hfault (by rw [hlast, h.size_eq])]
          rfl
      next => exact h.bodies hfault id rule hrule

/-- A rule with another body or other options is found under the same name. -/
theorem map_name_setIfInBounds {rule new : DraftRule V} {index : Nat}
    (h : Reflects names definitions whitespace? draft) (hrule : draft.rules[index]? = some rule)
    (hname : new.name = rule.name) :
    (draft.rules.setIfInBounds index new).toList.map DraftRule.name = names := by
  rw [Array.toList_setIfInBounds, List.map_set, h.map_name, hname]
  have hindex : names[index]? = some rule.name := by
    rw [← h.map_name, List.getElem?_map, Array.getElem?_toList, hrule]
    rfl
  rcases List.getElem?_eq_some_iff.1 hindex with ⟨hlt, heq⟩
  rw [← heq, List.set_getElem_self]

/-- A fault is noted where one more body is at fault. -/
theorem note (h : Reflects names definitions whitespace? draft) {definition : Definition V}
    (hregistered : definition.registered ≤ names.length)
    (hfaulty : ¬ Definition.Faultless (definitions ++ [definition])) (fault : GrammarError) :
    Reflects names (definitions ++ [definition]) whitespace? (draft.note fault) where
  map_name := h.map_name
  whitespace := h.whitespace
  registered := List.forall_mem_append.2 ⟨h.registered, List.forall_mem_singleton.2 hregistered⟩
  fault := iff_of_false (note_fault?_ne_none draft fault) hfaulty
  bodies hfault := (note_fault?_ne_none draft fault hfault).elim

/-- The body of a rule that has none yet. -/
theorem setBody (h : Reflects names definitions whitespace? draft) {id : RuleId}
    {rule : DraftRule V} (hrule : draft.rules[id.index]? = some rule) (hfree : rule.body? = none)
    (body : Expr V) :
    Reflects names (definitions ++ [⟨id, body, names.length⟩]) whitespace?
      { draft with
        rules := draft.rules.setIfInBounds id.index { rule with body? := some body } } where
  map_name := h.map_name_setIfInBounds hrule rfl
  whitespace := h.whitespace
  registered :=
    List.forall_mem_append.2 ⟨h.registered, List.forall_mem_singleton.2 (Nat.le_refl _)⟩
  fault := by
    refine h.fault.trans ⟨fun hfaultless => ?_, Definition.Faultless.of_append⟩
    have hnone := h.bodies (h.fault.2 hfaultless) id rule hrule
    rw [hfree] at hnone
    have hlt := (Array.getElem?_eq_some_iff.1 hrule).1
    exact hfaultless.append (Option.map_eq_none_iff.1 hnone.symm) (h.size_eq ▸ hlt)
  bodies := by
    intro hfault other later hlater
    rw [List.find?_append]
    rw [Array.getElem?_setIfInBounds] at hlater
    by_cases hsame : id = other
    · subst hsame
      have hnone := h.bodies hfault id rule hrule
      rw [hfree] at hnone
      rw [if_pos rfl, if_pos (Array.getElem?_eq_some_iff.1 hrule).1] at hlater
      cases hlater
      rw [Option.map_eq_none_iff.1 hnone.symm]
      simp
    · have hindex : id.index ≠ other.index := fun hindex => hsame (congrArg RuleId.mk hindex)
      rw [if_neg hindex] at hlater
      rw [h.bodies hfault other later hlater]
      simp [hsame]

/-- A definition is noted with what is registered by then. -/
theorem define (h : Reflects names definitions whitespace? draft) (id : RuleId)
    (body : Expr V) :
    Reflects names (definitions ++ [⟨id, body, names.length⟩]) whitespace?
      (draft.define id body) := by
  unfold Draft.define
  split
  next hnone =>
      refine h.note (Nat.le_refl _) (fun hfaultless => ?_) _
      have hlt := hfaultless.registered _ (List.mem_append_right _ List.mem_cons_self)
      rw [Array.getElem?_eq_none_iff, h.size_eq] at hnone
      exact Nat.not_lt.2 hnone hlt
  next rule hrule =>
      split
      next old hold =>
          refine h.note (Nat.le_refl _) (fun hfaultless => ?_) _
          have hfind := h.bodies (h.fault.2 hfaultless.of_append) id rule hrule
          rw [hold] at hfind
          rcases Option.map_eq_some_iff.1 hfind.symm with ⟨definition, hfind, -⟩
          have hid : definition.id = id := by simpa using List.find?_some hfind
          have honce := hfaultless.once
          rw [List.map_append, List.nodup_append] at honce
          exact honce.2.2 _ (List.mem_map_of_mem (List.mem_of_find?_eq_some hfind)) _
            List.mem_cons_self hid
      next hfree => exact h.setBody hrule hfree body

/-- Options are no part of names, definitions or faults. -/
theorem setOptions (h : Reflects names definitions whitespace? draft) (id : RuleId)
    (options : RuleOptions) :
    Reflects names definitions whitespace? (draft.setOptions id options) := by
  unfold Draft.setOptions
  split
  next => exact h
  next rule hrule =>
      refine ⟨h.map_name_setIfInBounds hrule rfl, h.whitespace, h.registered, h.fault, ?_⟩
      intro hfault other later hlater
      rw [Array.getElem?_setIfInBounds] at hlater
      split at hlater
      next hindex =>
          rw [if_pos (Array.getElem?_eq_some_iff.1 hrule).1] at hlater
          cases hlater
          exact h.bodies hfault other rule (hindex ▸ hrule)
      next => exact h.bodies hfault other later hlater

/-- The last whitespace rule is the one that counts. -/
theorem setWhitespace (h : Reflects names definitions whitespace? draft) (id : RuleId) :
    Reflects names definitions (some id) (draft.setWhitespace id) :=
  ⟨h.map_name, rfl, h.registered, h.fault, h.bodies⟩

theorem newVar (h : Reflects names definitions whitespace? draft) :
    Reflects names definitions whitespace? draft.newVar.2 :=
  ⟨h.map_name, h.whitespace, h.registered, h.fault, h.bodies⟩

/-- A rule is declared and then defined. -/
theorem rule (h : Reflects names definitions whitespace? draft) (name : String)
    (body : Expr V) :
    Reflects (register names name)
      (definitions ++ [⟨⟨names.idxOf name⟩, body, (register names name).length⟩]) whitespace?
      (draft.rule name body).2 := by
  have hrule : (draft.rule name body).2 =
      (draft.declare name).2.define ⟨names.idxOf name⟩ body := by
    rw [← h.fst_declare name]
    rfl
  rw [hrule]
  exact (h.declare name).define _ body

/-- Options of its own change nothing in this. -/
theorem ruleWith (h : Reflects names definitions whitespace? draft) (name : String)
    (options : RuleOptions) (body : Expr V) :
    Reflects (register names name)
      (definitions ++ [⟨⟨names.idxOf name⟩, body, (register names name).length⟩]) whitespace?
      (draft.ruleWith name options body).2 :=
  (h.rule name body).setOptions _ options

end Reflects

/-- A draft holds what was asked for by its calls. -/
theorem reflects_ofCalls (calls : List (Call V)) :
    Reflects (Call.names calls) (Call.definitions calls) (lastWhitespace? calls)
      (ofCalls calls) := by
  induction calls using List.reverseRecOn with
  | nil => exact reflects_empty
  | append_singleton calls call ih =>
      rw [ofCalls_append_singleton, definitions_append_singleton, lastWhitespace?_append_singleton,
        names_append_singleton]
      cases call with
      | declare name =>
          simpa [step, Call.name?, Call.whitespace?, definition?] using ih.declare name
      | define id body =>
          simpa [step, Call.name?, Call.whitespace?, definition?, names_append_singleton] using
            ih.define id body
      | rule name body =>
          simpa [step, Call.name?, Call.whitespace?, definition?, names_append_singleton] using
            ih.rule name body
      | ruleWith name options body =>
          simpa [step, Call.name?, Call.whitespace?, definition?, names_append_singleton] using
            ih.ruleWith name options body
      | setOptions id options =>
          simpa [step, Call.name?, Call.whitespace?, definition?] using ih.setOptions id options
      | setWhitespace id =>
          simpa [step, Call.name?, Call.whitespace?, definition?] using ih.setWhitespace id
      | newVar => simpa [step, Call.name?, Call.whitespace?, definition?] using ih.newVar

/-! ## Building -/

/-- A rule as it goes into the grammar, if it has a body. -/
def finished? (draft : Draft V) (rule : DraftRule V) : Option (Rule V) :=
  rule.body?.map fun body => ⟨rule.name, draft.expand body, rule.options⟩

/-- Rules are finished one by one. -/
theorem mapM_finishRule_eq_ok_iff {pending : List (DraftRule V)} {rules : List (Rule V)} :
    pending.mapM draft.finishRule = .ok rules ↔ pending.map draft.finished? = rules.map some := by
  induction pending generalizing rules with
  | nil => cases rules <;> simp [pure, Except.pure]
  | cons first pending ih =>
      rw [List.mapM_cons, finishRule, List.map_cons, finished?]
      cases first.body? with
      | none => cases rules <;> simp [bind, Except.bind]
      | some body =>
          cases rules with
          | nil =>
              cases pending.mapM draft.finishRule <;> simp [bind, Except.bind, pure, Except.pure]
          | cons rule rules =>
              rw [Option.map_some, List.map_cons, List.cons.injEq, ← ih]
              cases pending.mapM draft.finishRule <;> simp [bind, Except.bind, pure, Except.pure]

/-- Where every rule can be finished, there is a list of finished rules. -/
theorem exists_map_finished? {pending : List (DraftRule V)}
    (h : ∀ rule ∈ pending, (draft.finished? rule).isSome = true) :
    ∃ rules : List (Rule V), pending.map draft.finished? = rules.map some := by
  induction pending with
  | nil => exact ⟨[], rfl⟩
  | cons first pending ih =>
      rcases List.forall_mem_cons.1 h with ⟨hfirst, hrest⟩
      rcases Option.isSome_iff_exists.1 hfirst with ⟨rule, hrule⟩
      rcases ih hrest with ⟨rules, hrules⟩
      exact ⟨rule :: rules, by rw [List.map_cons, List.map_cons, hrule, hrules]⟩

/-- The body of a rule as it goes into the grammar. -/
def finishedBody? (draft : Draft V) (id : RuleId) : Option (Expr V) :=
  draft.rules[id.index]?.bind fun rule => rule.body?.map draft.expand

/-- The body that a number stands for is that of its rule. -/
theorem bodyIn_of_map_finished? {rules : List (Rule V)}
    (h : draft.rules.toList.map draft.finished? = rules.map some) :
    Nullable.bodyIn (Check.bodies rules) = draft.finishedBody? := by
  funext id
  have hid : draft.rules[id.index]?.map draft.finished? = rules[id.index]?.map some := by
    rw [← Array.getElem?_toList, ← List.getElem?_map, h, List.getElem?_map]
  calc Nullable.bodyIn (Check.bodies rules) id
    _ = (rules[id.index]?.map some).bind (Option.map Rule.body) := by
        rw [Check.bodyIn_bodies, Option.bind_map]
        cases rules[id.index]? <;> rfl
    _ = draft.finishedBody? id := by
        rw [← hid, Option.bind_map, finishedBody?]
        congr 1
        funext rule
        exact Option.map_map ..

/-- Finishing rules leaves none out. -/
theorem length_of_map_finished? {rules : List (Rule V)}
    (h : draft.rules.toList.map draft.finished? = rules.map some) :
    rules.length = draft.rules.size := by
  simpa using (congrArg List.length h).symm

/-- A grammar can be built exactly if nothing was at fault, every rule has a body, and the
bodies are well-formed as they go into the grammar. -/
theorem exists_build_iff :
    (∃ grammar, draft.build = .ok grammar) ↔
      draft.fault? = none ∧
        (∀ id, id.index < draft.rules.size → (draft.finishedBody? id).isSome = true) ∧
        WellFormed draft.rules.size draft.finishedBody? := by
  simp only [build_eq_ok_iff, mapM_finishRule_eq_ok_iff]
  constructor
  · rintro ⟨_, hfault, rules, hfinished, hcheck, rfl⟩
    have hbodies := bodyIn_of_map_finished? hfinished
    have hlength := length_of_map_finished? hfinished
    rw [Check.check_eq_ok_iff_wellFormed, hbodies, hlength] at hcheck
    refine ⟨hfault, fun id hid => ?_, hcheck⟩
    rw [← hbodies, Check.bodyIn_bodies, List.getElem?_eq_getElem (hlength ▸ hid)]
    rfl
  · rintro ⟨hfault, hdefined, hwell⟩
    have hall : ∀ rule ∈ draft.rules.toList, (draft.finished? rule).isSome = true := by
      intro rule hrule
      rcases List.getElem?_of_mem hrule with ⟨index, hindex⟩
      rw [Array.getElem?_toList] at hindex
      have hbody := hdefined ⟨index⟩ (Array.getElem?_eq_some_iff.1 hindex).1
      rw [finishedBody?, hindex] at hbody
      simpa [finished?] using hbody
    rcases exists_map_finished? hall with ⟨rules, hrules⟩
    rw [← length_of_map_finished? hrules, ← bodyIn_of_map_finished? hrules,
      ← Check.check_eq_ok_iff_wellFormed] at hwell
    exact ⟨_, hfault, rules, hrules, hwell, rfl⟩

/-- The bodies that go into the grammar are those that were asked for. -/
theorem finishedBody?_ofCalls {calls : List (Call V)} (hfault : (ofCalls calls).fault? = none) :
    (ofCalls calls).finishedBody? = Call.body? calls := by
  have h := reflects_ofCalls calls
  funext id
  rw [finishedBody?, Call.body?]
  cases hrule : (ofCalls calls).rules[id.index]? with
  | none =>
      have hle := Array.getElem?_eq_none_iff.1 hrule
      rw [h.size_eq] at hle
      rw [h.find?_eq_none hfault hle]
      rfl
  | some rule =>
      rw [Option.bind_some, h.bodies hfault id rule hrule, Option.map_map]
      congr 1
      funext definition
      cases hwhitespace : lastWhitespace? calls with
      | none => simp only [Function.comp_apply, expand, h.whitespace, hwhitespace]
      | some whitespace => simp only [Function.comp_apply, expand, h.whitespace, hwhitespace]

/-- A grammar can be built exactly if its calls give every rule a body, no rule two and
none before it exists, and all bodies are well-formed once their literals have been
expanded. -/
theorem exists_build_ofCalls_iff (calls : List (Call V)) :
    (∃ grammar, (ofCalls calls).build = .ok grammar) ↔ Call.Sound calls := by
  have h := reflects_ofCalls calls
  rw [exists_build_iff, h.size_eq, h.fault]
  constructor
  · rintro ⟨hfaultless, hdefined, hwell⟩
    rw [finishedBody?_ofCalls (h.fault.2 hfaultless)] at hdefined hwell
    exact ⟨hfaultless, hdefined, hwell⟩
  · rintro ⟨hfaultless, hdefined, hwell⟩
    rw [finishedBody?_ofCalls (h.fault.2 hfaultless)]
    exact ⟨hfaultless, hdefined, hwell⟩

end Draft

end Peg
