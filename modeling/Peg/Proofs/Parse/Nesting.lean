import Mathlib
import Peg.Proofs.Grammar.WellFormed
import Peg.Proofs.Parse.Consuming
import Peg.Proofs.Repair.Reached

/-!
# How deeply invocations are nested

As long as nothing is read and nothing repaired, a rule invokes another one only if it
leads with it.  No rule of an accepted grammar leads with itself, so the rules can be
ranked, and one invocation is nested in another without anything spent in between at most
as often as there are rules.

Main results:

- `Draft.exists_ranks`: the rules of a grammar that was built can be ranked.
- `Begins.nested`: the bound of the nesting is kept by what an evaluation begins.
- `Reached.nested`: so it holds wherever a pass gets to.
- `Draft.nesting_bounded`: with a limit that is not below the bound no parse runs into it.
-/

namespace Peg

open Text Relation Machine

variable {V : Type}

/-! ## Ranks -/

/-- Ranks of the rules, which rise from a rule to those that it leads with. -/
structure Ranks (grammar : Grammar V) (known : RuleId → Bool) (rank : RuleId → Nat) : Prop where
  lt_size : ∀ id rule, grammar.rule? id = some rule → rank id < grammar.rules.size
  lt_of_lead : ∀ id rule next, grammar.rule? id = some rule → next ∈ rule.body.leads known →
    rank id < rank next

/-- A rule leads with another one. -/
def Grammar.LeadsWith (grammar : Grammar V) (known : RuleId → Bool) (a b : RuleId) : Prop :=
  ∃ rule, grammar.rule? a = some rule ∧ b ∈ rule.body.leads known

/-- A rule that a grammar has is numbered below their number. -/
theorem Grammar.index_lt_of_rule? {grammar : Grammar V} {id : RuleId} {rule : Rule V}
    (h : grammar.rule? id = some rule) : id.index < grammar.rules.size :=
  (Array.getElem?_eq_some_iff.1 h).1

open Classical in
/-- The rules of a grammar in which none leads with itself can be ranked. -/
theorem exists_ranks {grammar : Grammar V} {known : RuleId → Bool}
    (hacyclic : ∀ id, ¬ TransGen (grammar.LeadsWith known) id id) :
    ∃ rank, Ranks grammar known rank := by
  -- The rank of a rule is the number of rules that lead to it, by one step or more.
  let before (id : RuleId) : Finset Nat :=
    (Finset.range grammar.rules.size).filter fun index =>
      TransGen (grammar.LeadsWith known) ⟨index⟩ id
  have hself : ∀ id, id.index ∉ before id := fun id hmem =>
    hacyclic id (Finset.mem_filter.1 hmem).2
  refine ⟨fun id => (before id).card, ?_, ?_⟩
  · intro id rule hrule
    have hlt : id.index ∈ Finset.range grammar.rules.size :=
      Finset.mem_range.2 (Grammar.index_lt_of_rule? hrule)
    have hsub : before id ⊂ Finset.range grammar.rules.size :=
      Finset.ssubset_iff_subset_ne.2
        ⟨Finset.filter_subset _ _, fun heq => hself id (heq ▸ hlt)⟩
    simpa using Finset.card_lt_card hsub
  · intro id rule next hrule hlead
    have hmem : id.index ∈ before next :=
      Finset.mem_filter.2
        ⟨Finset.mem_range.2 (Grammar.index_lt_of_rule? hrule), .single ⟨rule, hrule, hlead⟩⟩
    refine Finset.card_lt_card (Finset.ssubset_iff_subset_ne.2 ⟨fun index hindex => ?_, ?_⟩)
    · rcases Finset.mem_filter.1 hindex with ⟨hlt, hpath⟩
      exact Finset.mem_filter.2 ⟨hlt, hpath.tail ⟨rule, hrule, hlead⟩⟩
    · exact fun heq => hself id (heq ▸ hmem)

/-- The rules of a grammar that was built can be ranked. -/
theorem Draft.exists_ranks {draft : Draft V} {grammar : Grammar V}
    (h : draft.build = .ok grammar) :
    ∃ rank, Ranks grammar (Nullable.lookup (Check.known grammar.rules.toList)) rank := by
  rcases build_eq_ok_iff.1 h with ⟨-, rules, -, hcheck, rfl⟩
  refine Peg.exists_ranks fun id hloop => Check.acyclic_of_check hcheck id ?_
  refine hloop.lift (fun id => id) ?_
  rintro a b ⟨rule, hrule, hlead⟩
  exact ⟨rule, by simpa [Grammar.rule?] using hrule, hlead⟩

/-! ## The bound -/

/-- The rules that a task may invoke first. -/
def Task.leads (known : RuleId → Bool) : Task V → List RuleId
  | .expr e | .many e => e.leads known
  | .items _ _ parts _ _ => Expr.seqLeads known parts
  | .alternatives parts => Expr.choiceLeads known parts
  | .call id => [id]

/-- The number of repairs that a pass may make. -/
def Env.allowedRepairs (env : Env V) : Nat :=
  match env.pass with
  | .first => 0
  | .repair _ => env.settings.maxRecoveredErrors

/-- Further on in a pass, at the same depth. -/
structure Machine.Onward (env : Env V) (m left : Machine V) : Prop where
  valid : left.Valid env
  depth_eq : left.depth = m.depth
  spent_le : m.spent ≤ left.spent
  allowed : m.inserted ≤ env.allowedRepairs → left.inserted ≤ env.allowedRepairs

/-- What bounds the depth at the start of a task: as many invocations as there are rules
for everything spent, and besides no more than the rank of a rule that may be invoked
first. -/
structure Nested (env : Env V) (known : RuleId → Bool) (rank : RuleId → Nat) (a : Nat)
    (task : Task V) (m : Machine V) : Prop where
  valid : m.Valid env
  allowance : a + m.depth = env.settings.maxDepth
  allowed : m.inserted ≤ env.allowedRepairs
  depth_le : m.depth ≤ env.grammar.rules.size * (m.spent + 1)
  depth_le_rank : ∀ id ∈ task.leads known,
    m.depth ≤ env.grammar.rules.size * m.spent + rank id

variable {env : Env V} {known : RuleId → Bool} {rank : RuleId → Nat} {root : RuleId}
variable {a a' : Nat} {task task' : Task V} {m m' left : Machine V} {o : Verdict × Machine V}
variable {made : List StandIn}

namespace Machine

/-- A valid machine has gone no way yet. -/
theorem Onward.refl (h : m.Valid env) : Onward env m m :=
  ⟨h, rfl, Nat.le_refl _, id⟩

/-- What matters for it. -/
theorem Onward.congr (h : Onward env m left) (hvalid : m'.Valid env)
    (hdepth : m'.depth = left.depth) (hoffset : m'.offset = left.offset)
    (hgaps : m'.gaps = left.gaps) : Onward env m m' := by
  have hinserted : m'.inserted = left.inserted := congrArg List.length hgaps
  have hspent : m'.spent = left.spent := congrArg₂ (· + ·) hoffset hinserted
  exact ⟨hvalid, hdepth.trans h.depth_eq, hspent ▸ h.spent_le, hinserted ▸ h.allowed⟩

/-- A stretch of an evaluation goes on in the pass. -/
theorem Frame.onward (h : m.Frame env left) (hgrows : Grows env m left) : Onward env m left where
  valid := h.valid
  depth_eq := h.depth
  spent_le := h.spent_le
  allowed hm := by
    rcases hgrows.allowed with hsame | hallowed
    · rwa [inserted, hsame]
    · unfold Env.allowedRepairs at hm ⊢
      split
      next hpass =>
          rw [hpass] at hm
          rwa [inserted, h.gaps_first hpass]
      next => exact hallowed

end Machine

/-- Further on, a task is nested no deeper if it leads with no other rules, unless more
has been spent. -/
theorem Nested.onward (h : Nested env known rank a task m) (honward : Onward env m m')
    (hleads : m'.spent = m.spent → task'.leads known ⊆ task.leads known) :
    Nested env known rank a task' m' where
  valid := honward.valid
  allowance := by
    rw [honward.depth_eq]
    exact h.allowance
  allowed := honward.allowed h.allowed
  depth_le := by
    rw [honward.depth_eq]
    refine Nat.le_trans h.depth_le (Nat.mul_le_mul_left _ ?_)
    have hspent := honward.spent_le
    omega
  depth_le_rank := by
    intro id hid
    rw [honward.depth_eq]
    rcases Nat.eq_or_lt_of_le honward.spent_le with hsame | hmore
    · rw [← hsame]
      exact h.depth_le_rank id (hleads hsame.symm hid)
    · calc m.depth ≤ env.grammar.rules.size * (m.spent + 1) := h.depth_le
        _ ≤ env.grammar.rules.size * m'.spent := Nat.mul_le_mul_left _ hmore
        _ ≤ env.grammar.rules.size * m'.spent + rank id := Nat.le_add_right _ _

/-- In the body of a rule there is one invocation more, and it leads with rules of higher
rank. -/
theorem Nested.enterRule {id : RuleId} {definition : Rule V} (hranks : Ranks env.grammar known rank)
    (hdefinition : env.grammar.rule? id = some definition)
    (h : Nested env known rank (a + 1) (.call id) m) :
    Nested env known rank a (.expr definition.body)
      (Eval.enterRule id definition (Eval.countMiss env definition m)) := by
  rw [Eval.countMiss_eq]
  have hdepth : m.depth ≤ env.grammar.rules.size * m.spent + rank id :=
    h.depth_le_rank id (List.mem_singleton_self id)
  have hallowance := h.allowance
  refine ⟨⟨h.valid.within, m.vars.valid_enter⟩, ?_, h.allowed, ?_, fun next hnext => ?_⟩
  · change a + (m.depth + 1) = env.settings.maxDepth
    omega
  · change m.depth + 1 ≤ env.grammar.rules.size * (m.spent + 1)
    have hlt := hranks.lt_size id definition hdefinition
    rw [Nat.mul_succ]
    omega
  · change m.depth + 1 ≤ env.grammar.rules.size * m.spent + rank next
    have hlt := hranks.lt_of_lead id definition next hdefinition hnext
    omega

/-! ## What is begun -/

/-- What an evaluation of an expression leaves behind is further on. -/
theorem onward_of_run {e : Expr V} {verdict : Verdict}
    (hrun : (Task.expr e).run env a m = (verdict, left)) (hm : m.Valid env)
    (hends : verdict = .matched ∨ verdict = .mismatched) : Onward env m left := by
  rcases exists_derives env a (.expr e) m with ⟨made, hmade⟩
  rw [hrun] at hmade
  have hframe := hmade.framed hm
  rcases hends with rfl | rfl
  · exact Frame.onward hframe hmade.grows
  · exact Frame.onward hframe hmade.grows

/-- So is what a first round of a choice leaves behind. -/
theorem onward_undoRound {items : List (Expr V)} (htwo : Eval.takesTwoRounds env m = true)
    (hrun : (Task.alternatives items).run env a (Eval.openRound m) = (.mismatched, left))
    (hm : m.Valid env) : Onward env m (Eval.undoRound m left) := by
  rcases exists_derives env a (.alternatives items) (Eval.openRound m) with ⟨made, hmade⟩
  rw [hrun] at hmade
  have hframe : (Eval.openRound m).Frame env left := hmade.framed ⟨hm.within, hm.vars⟩
  exact (hframe.undoRound htwo).onward (hmade.grows.closeRound htwo _)

/-- An action spends nothing. -/
theorem onward_runAction {action : Action V} {span : Span} {synthetic : Bool}
    (hact : Eval.runAction env action span synthetic m = (.matched, left)) (hm : m.Valid env) :
    Onward env m left := by
  have hgrows := Eval.grows_runAction env action span synthetic m
  rw [hact] at hgrows
  exact (Eval.frame_runAction hm hact).onward hgrows

/-- The bound of the nesting is kept by what an evaluation begins. -/
theorem Begins.nested (hgrammar : env.grammar.Accepted known)
    (hranks : Ranks env.grammar known rank)
    (h : Begins env a task m a' task' m') (hnested : Nested env known rank a task m) :
    Nested env known rank a' task' m' := by
  have hm := hnested.valid
  have hsame := Onward.refl hm
  cases h with
  | seq | choice_once | star | plus | rule =>
      exact hnested.onward hsame fun _ => List.Subset.refl _
  | choice_first | many | optional | notAhead | ahead | label =>
      exact hnested.onward (hsame.congr ⟨hm.within, hm.vars⟩ rfl rfl rfl)
        fun _ => List.Subset.refl _
  | @act_next _ start inherited action items previous synthetic _ left hact =>
      refine hnested.onward (onward_runAction hact hm) fun _ => ?_
      simp only [Task.leads]
      rw [Expr.seqLeads_cons]
      exact List.subset_append_right _ _
  | part hitem =>
      refine hnested.onward (hsame.congr ⟨hm.within, hm.vars⟩ rfl rfl rfl) fun _ => ?_
      simp only [Task.leads]
      rw [Expr.seqLeads_cons]
      exact List.subset_append_left _ _
  | @part_next _ start inherited item items previous synthetic _ left hitem hpart =>
      have hstart : Machine.Valid env { m with committed := inherited || start < m.offset } :=
        ⟨hm.within, hm.vars⟩
      have hleft := onward_of_run hpart hstart (.inl rfl)
      refine hnested.onward ⟨hleft.valid, hleft.depth_eq, hleft.spent_le, hleft.allowed⟩
        fun hspent => ?_
      -- With nothing spent the part is nullable, so the sequence leads on behind it.
      have hnullable : item.nullable known = true := by
        rcases exists_derives env a (.expr item)
          { m with committed := inherited || start < m.offset } with ⟨made, hmade⟩
        rw [hpart] at hmade
        exact hmade.nullable hgrammar hstart rfl hspent
      simp only [Task.leads]
      rw [Expr.seqLeads_cons, if_pos hnullable]
      exact List.subset_append_right _ _
  | choice_second htwo hround hnoted =>
      exact hnested.onward (onward_undoRound htwo hround hm) fun _ => List.Subset.refl _
  | alternative =>
      refine hnested.onward hsame fun _ => ?_
      simp only [Task.leads]
      rw [Expr.choiceLeads]
      exact List.subset_append_left _ _
  | alternative_next hmore hfirst =>
      have hleft := onward_of_run hfirst hm (.inr rfl)
      refine hnested.onward (hleft.congr ⟨hleft.valid.within, hleft.valid.vars⟩ rfl rfl rfl)
        fun _ => ?_
      simp only [Task.leads]
      rw [Expr.choiceLeads]
      exact List.subset_append_right _ _
  | many_next hfirst hless =>
      have hleft := onward_of_run hfirst ⟨hm.within, hm.vars⟩ (.inl rfl)
      exact hnested.onward ⟨hleft.valid, hleft.depth_eq, hleft.spent_le, hleft.allowed⟩
        fun _ => List.Subset.refl _
  | plus_next hfirst hless =>
      exact hnested.onward (onward_of_run hfirst hm (.inl rfl)) fun _ => List.Subset.refl _
  | body hdefinition hknown => exact hnested.enterRule hranks hdefinition

/-- So it is wherever a pass gets to. -/
theorem Reached.nested (hgrammar : env.grammar.Accepted known)
    (hranks : Ranks env.grammar known rank) (h : Reached env root a task m) :
    Nested env known rank a task m := by
  induction h with
  | start =>
      refine ⟨valid_passStart env, ?_, ?_, ?_, ?_⟩
      all_goals rw [passStart_eq]
      · exact Nat.add_zero _
      · exact Nat.zero_le _
      · exact Nat.zero_le _
      · exact fun _ _ => Nat.zero_le _
  | part h hbegins ih => exact hbegins.nested hgrammar hranks ih

/-! ## The bound for a pass -/

/-- As many invocations as there are rules, for every byte and every repair, and once
more. -/
def Env.nestingBound (env : Env V) : Nat :=
  env.grammar.rules.size * (byteSize env.source.text + 1 + env.allowedRepairs)

/-- No more is spent than there is to be read and to be repaired. -/
theorem Nested.spent_lt (h : Nested env known rank a task m) :
    m.spent < byteSize env.source.text + 1 + env.allowedRepairs := by
  have hoffset : m.offset ≤ byteSize env.source.text := h.valid.within.offset_le
  have hallowed := h.allowed
  rw [spent]
  omega

/-- No invocation is nested deeper than the grammar and the text allow. -/
theorem Nested.depth_le_bound (h : Nested env known rank a task m) :
    m.depth ≤ env.nestingBound :=
  Nat.le_trans h.depth_le (Nat.mul_le_mul_left _ h.spent_lt)

/-- Where a rule is about to be invoked, there is room for one invocation more. -/
theorem Nested.depth_lt_bound {id : RuleId} {definition : Rule V}
    (hranks : Ranks env.grammar known rank) (hdefinition : env.grammar.rule? id = some definition)
    (h : Nested env known rank a (.call id) m) : m.depth < env.nestingBound := by
  calc m.depth ≤ env.grammar.rules.size * m.spent + rank id :=
        h.depth_le_rank id (List.mem_singleton_self id)
    _ < env.grammar.rules.size * m.spent + env.grammar.rules.size :=
        Nat.add_lt_add_left (hranks.lt_size id definition hdefinition) _
    _ = env.grammar.rules.size * (m.spent + 1) := (Nat.mul_succ _ _).symm
    _ ≤ env.nestingBound := Nat.mul_le_mul_left _ h.spent_lt

/-- An evaluation counts no deeper nesting than the bound, and is not stopped for it if
the limit is no lower. -/
structure Shallow (env : Env V) (m : Machine V) (o : Verdict × Machine V) : Prop where
  deepest : o.2.stats.maxDepth ≤ max m.stats.maxDepth env.nestingBound
  unlimited : env.nestingBound ≤ env.settings.maxDepth → o.1.limited = false

namespace Shallow

/-- An evaluation in which no rule is invoked is as shallow as before. -/
theorem of_same (hdeepest : o.2.stats.maxDepth = m.stats.maxDepth)
    (hlimited : o.1.limited = false) : Shallow env m o :=
  ⟨hdeepest ▸ Nat.le_max_left _ _, fun _ => hlimited⟩

/-- Nothing else matters for it. -/
theorem congr {o' : Verdict × Machine V} (h : Shallow env m' o)
    (hstart : m.stats.maxDepth = m'.stats.maxDepth) (hlimited : o'.1.limited = o.1.limited)
    (hdeepest : o'.2.stats.maxDepth = o.2.stats.maxDepth) : Shallow env m o' :=
  ⟨by rw [hdeepest, hstart]; exact h.deepest, fun hbound => hlimited.trans (h.unlimited hbound)⟩

/-- An evaluation behind one that is shallow. -/
theorem after {first : Verdict × Machine V} (h : Shallow env m' o) (hfirst : Shallow env m first)
    (hstart : m'.stats.maxDepth = first.2.stats.maxDepth) : Shallow env m o := by
  refine ⟨?_, h.unlimited⟩
  have hdeepest := h.deepest
  have hfirst := hfirst.deepest
  omega

/-- Going back after a mismatch does not go deeper. -/
theorem rewinding {eval : Eval V} (h : Shallow env m (eval m)) :
    Shallow env m (Eval.rewinding eval m) := by
  rcases Eval.exists_snd_rewinding eval m with ⟨_, _, hleft⟩
  exact h.congr rfl (by rw [Eval.fst_rewinding]) (by rw [hleft])

/-- A terminal invokes no rules. -/
theorem terminal (e : Expr V) (m : Machine V) : Shallow env m (Eval.terminal env e m) := by
  unfold Eval.terminal
  split
  next => exact .of_same rfl rfl
  next =>
      unfold Eval.missing
      split
      next =>
          rw [recordFailure_eq]
          exact .of_same rfl rfl
      next =>
          split
          next =>
              split
              next => exact .of_same rfl rfl
              next => exact .of_same rfl rfl
          next => exact .of_same rfl rfl

/-- Nor does an action. -/
theorem runAction (action : Action V) (span : Span) (synthetic : Bool) (m : Machine V) :
    Shallow env m (Eval.runAction env action span synthetic m) := by
  unfold Eval.runAction
  dsimp only
  generalize (action _).run ⟨m.stack, m.vars⟩ = result
  rcases result with ⟨error | _ | _, space⟩
  · exact .of_same rfl rfl
  · exact .of_same rfl rfl
  · exact .of_same rfl rfl

/-- Nor does a mismatch that is known. -/
theorem knownMismatch (id : RuleId) (refused : Bool) (m : Machine V) :
    Shallow env m (.mismatched, Eval.knownMismatch env id refused m) := by
  unfold Eval.knownMismatch
  dsimp only
  rw [recordNamed_eq]
  exact .of_same rfl rfl

/-- The body of a rule, with room for it. -/
theorem body {id : RuleId} {definition : Rule V} {key? : Option MemoKey}
    (h : Shallow env (Eval.enterRule id definition (Eval.countMiss env definition m)) o)
    (hroom : m.depth < env.nestingBound) :
    Shallow env m (Eval.body env id definition key? (fun _ => o)
      (Eval.countMiss env definition m)) := by
  rcases Eval.exists_snd_body env id definition key? (fun _ => o)
    (Eval.countMiss env definition m) with ⟨_, _, _, _, hleft⟩
  have hstats : (Eval.countMiss env definition m).stats.maxDepth = m.stats.maxDepth := by
    unfold Eval.countMiss
    split <;> rfl
  have hdepth : (Eval.countMiss env definition m).depth = m.depth := by
    rw [Eval.countMiss_eq]
  refine ⟨?_, fun hbound => ?_⟩
  · have hdeepest : o.2.stats.maxDepth ≤ max (max (Eval.countMiss env definition m).stats.maxDepth
        ((Eval.countMiss env definition m).depth + 1)) env.nestingBound := h.deepest
    rw [hstats, hdepth] at hdeepest
    rw [hleft]
    change o.2.stats.maxDepth ≤ max m.stats.maxDepth env.nestingBound
    omega
  · rw [Eval.fst_body]
    exact h.unlimited hbound

end Shallow

/-- Invocations are nested no more deeply than the bound. -/
theorem Derives.shallow (hgrammar : env.grammar.Accepted known)
    (hranks : Ranks env.grammar known rank) (h : Derives env a task m o made)
    (hnested : Nested env known rank a task m) : Shallow env m o := by
  induction h with
  | terminal hterminal => exact (Shallow.terminal _ _).rewinding
  | action => exact (Shallow.runAction _ _ _ _).rewinding
  | seq hitems ih =>
      refine Shallow.rewinding ?_
      exact (ih (Begins.seq.nested hgrammar hranks hnested)).congr rfl rfl rfl
  | done | no_alternative | unknown => exact .of_same rfl rfl
  | @act_next a start inherited action items previous synthetic m left o made hact hrest ih =>
      have hfirst : Shallow env m (Eval.runAction env action previous synthetic m) :=
        .runAction action previous synthetic m
      rw [hact] at hfirst
      exact (ih ((Begins.act_next hact).nested hgrammar hranks hnested)).after hfirst rfl
  | act_last hends => exact .runAction _ _ _ _
  | part_next hitem hpart hrest ihpart ihrest =>
      have hfirst := ihpart ((Begins.part hitem).nested hgrammar hranks hnested)
      have hrest := ihrest ((Begins.part_next hitem hpart.run_eq).nested hgrammar hranks hnested)
      exact hrest.after (hfirst.congr rfl rfl rfl) rfl
  | part_last hitem hpart hends ih =>
      exact (ih ((Begins.part hitem).nested hgrammar hranks hnested)).congr rfl rfl rfl
  | choice_once honce hround ih =>
      refine Shallow.rewinding ?_
      exact ih ((Begins.choice_once honce).nested hgrammar hranks hnested)
  | choice_first htwo hround hends ih =>
      refine Shallow.rewinding ?_
      exact (ih ((Begins.choice_first htwo).nested hgrammar hranks hnested)).congr rfl rfl rfl
  | choice_second htwo hround hnoted hagain ihround ihagain =>
      have hfirst := ihround ((Begins.choice_first htwo).nested hgrammar hranks hnested)
      have hrest := ihagain
        ((Begins.choice_second htwo hround.run_eq hnoted).nested hgrammar hranks hnested)
      refine Shallow.rewinding ?_
      exact hrest.after (hfirst.congr rfl rfl rfl) rfl
  | alternative_next hmore hfirst hrest ihfirst ihrest =>
      have hfirst' := ihfirst (Begins.alternative.nested hgrammar hranks hnested)
      have hrest' := ihrest
        ((Begins.alternative_next hmore hfirst.run_eq).nested hgrammar hranks hnested)
      exact hrest'.after hfirst' rfl
  | alternative_last hends hfirst ih =>
      exact ih (Begins.alternative.nested hgrammar hranks hnested)
  | star hmany ih =>
      refine Shallow.rewinding ?_
      exact (ih (Begins.star.nested hgrammar hranks hnested)).congr rfl rfl rfl
  | many_next hfirst hless hrest ihfirst ihrest =>
      have hfirst' := ihfirst (Begins.many.nested hgrammar hranks hnested)
      have hrest' := ihrest ((Begins.many_next hfirst.run_eq hless).nested hgrammar hranks hnested)
      exact hrest'.after (hfirst'.congr rfl rfl rfl) rfl
  | many_last hfirst hends ih =>
      exact (ih (Begins.many.nested hgrammar hranks hnested)).congr rfl (by simp) (by simp)
  | plus_next hfirst hless hrest ihfirst ihrest =>
      have hfirst' := ihfirst (Begins.plus.nested hgrammar hranks hnested)
      have hrest' := ihrest ((Begins.plus_next hfirst.run_eq hless).nested hgrammar hranks hnested)
      refine Shallow.rewinding ?_
      exact (hrest'.after hfirst' rfl).congr rfl rfl rfl
  | plus_last hfirst hends ih =>
      refine Shallow.rewinding ?_
      exact (ih (Begins.plus.nested hgrammar hranks hnested)).congr rfl rfl rfl
  | optional hbody ih =>
      rw [Eval.optional_eq]
      refine Shallow.rewinding ?_
      exact (ih (Begins.optional.nested hgrammar hranks hnested)).congr rfl (by simp) (by simp)
  | notAhead hbody ih =>
      refine Shallow.rewinding ?_
      exact (ih (Begins.notAhead.nested hgrammar hranks hnested)).congr rfl (by simp) rfl
  | ahead hbody ih =>
      refine Shallow.rewinding ?_
      exact (ih (Begins.ahead.nested hgrammar hranks hnested)).congr rfl (by simp) rfl
  | @label a name body m o made hbody ih =>
      rcases Eval.exists_snd_labeled env name (fun _ => o) m with ⟨_, _, hleft⟩
      refine Shallow.rewinding ?_
      exact (ih (Begins.label.nested hgrammar hranks hnested)).congr rfl
        (by rw [Eval.fst_labeled]) (by rw [hleft]; rfl)
  | rule hcall ih =>
      refine Shallow.rewinding ?_
      exact ih (Begins.rule.nested hgrammar hranks hnested)
  | limit hdefinition =>
      refine ⟨Nat.le_max_left _ _, fun hbound => ?_⟩
      have hlt := hnested.depth_lt_bound hranks hdefinition
      have hallowance := hnested.allowance
      omega
  | hit hdefinition hknown => exact .knownMismatch _ _ _
  | body hdefinition hknown hbody ih =>
      have hinside := ih ((Begins.body hdefinition hknown).nested hgrammar hranks hnested)
      exact hinside.body (hnested.depth_lt_bound hranks hdefinition)

/-! ## Passes and parses -/

/-- A pass nests invocations within a bound: wherever it gets to, by its own count, and so
that it is not stopped if the limit is no lower. -/
structure NestsWithin (env : Env V) (root : RuleId) (bound : Nat) : Prop where
  depth_le : ∀ a task m, Reached env root a task m → m.depth ≤ bound
  deepest : (runPass env root).2.stats.maxDepth ≤ bound
  unlimited : bound ≤ env.settings.maxDepth → ∀ limit position,
    (runPass env root).1 ≠ .aborted (.recursionLimit limit position)

/-- In an accepted grammar whose rules are ranked, a parse nests within the bound. -/
theorem nestsWithin_bound (hgrammar : env.grammar.Accepted known)
    (hranks : Ranks env.grammar known rank) (root : RuleId) :
    NestsWithin env root env.nestingBound := by
  rcases exists_passMakes env root with ⟨made, hmade⟩
  have hshallow := Derives.shallow hgrammar hranks hmade (Reached.start.nested hgrammar hranks)
  refine ⟨fun a task m h => (h.nested hgrammar hranks).depth_le_bound, ?_, fun hbound => ?_⟩
  · have hdeepest := hshallow.deepest
    rw [passStart_eq] at hdeepest
    exact Nat.le_trans hdeepest (Nat.max_le.2 ⟨Nat.zero_le _, Nat.le_refl _⟩)
  · exact Verdict.limited_eq_false_iff.1 (hshallow.unlimited hbound)

/-- With a grammar that was built, a first pass nests invocations at most as often as there
are rules for every byte of the text and once more, and a repairing pass as often again for
every repair that is allowed.  With a limit that is no lower, no parse is aborted and no
repairing pass is dropped for it. -/
theorem Draft.nesting_bounded {draft : Draft V} {grammar : Grammar V}
    (hbuild : draft.build = .ok grammar) (source : Source) (settings : Settings)
    (root : RuleId) :
    NestsWithin ⟨grammar, source, settings, .first⟩ root
        (grammar.rules.size * (byteSize source.text + 1)) ∧
      (∀ errorOffset, NestsWithin ⟨grammar, source, settings, .repair errorOffset⟩ root
        (grammar.rules.size * (byteSize source.text + 1 + settings.maxRecoveredErrors))) ∧
      (grammar.rules.size * (byteSize source.text + 1) ≤ settings.maxDepth →
        ∀ limit position,
          (execute grammar settings source root).result ≠
            .error (.recursionLimit limit position)) := by
  have hgrammar := Draft.accepted_of_build hbuild
  rcases Draft.exists_ranks hbuild with ⟨rank, hranks⟩
  have hfirst : NestsWithin ⟨grammar, source, settings, .first⟩ root
      (grammar.rules.size * (byteSize source.text + 1)) :=
    nestsWithin_bound hgrammar hranks root
  refine ⟨hfirst, fun errorOffset => nestsWithin_bound hgrammar hranks root, ?_⟩
  intro hbound limit position herror
  rcases eq_unknownRoot_or_aborted herror with hunknown | haborted
  · cases hunknown
  · exact hfirst.unlimited hbound limit position haborted

/-- A grammar of nested brackets. -/
def brackets : Grammar Nat where
  rules := #[⟨"brackets", .choice [.seq [.char '(', .rule ⟨0⟩, .char ')'], .char 'x'], {}⟩]

/-- Brackets nested once: the bounds for a match and for a recovery pass, and a parse that stays
within the limit. -/
theorem Draft.nesting_bounded_brackets :
    (runPass ⟨brackets, .plain ['(', 'x', ')'], {}, .first⟩ ⟨0⟩).2.stats.maxDepth ≤ 4 ∧
      (runPass ⟨brackets, .plain ['(', 'x'], {}, .repair 2⟩ ⟨0⟩).2.stats.maxDepth ≤ 103 ∧
      ∀ limit position,
        (execute brackets {} (.plain ['(', 'x', ')']) ⟨0⟩).result ≠
          .error (.recursionLimit limit position) := by
  have hbuild : ((Draft.empty : Draft Nat).rule "brackets"
      (.choice [.seq [.char '(', .rule ⟨0⟩, .char ')'], .char 'x'])).2.build = .ok brackets := by
    cbv
  have hwhole := Draft.nesting_bounded hbuild (.plain ['(', 'x', ')']) {} ⟨0⟩
  have hshort := Draft.nesting_bounded hbuild (.plain ['(', 'x']) {} ⟨0⟩
  exact ⟨hwhole.1.deepest, (hshort.2.1 2).deepest, hwhole.2.2 (by decide)⟩

end Peg
