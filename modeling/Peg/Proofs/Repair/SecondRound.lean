import Mathlib
import Peg.Grammar.Draft
import Peg.Proofs.Parse.Growth
import Peg.Proofs.Repair.Rounds

/-!
# What a second round starts from

A choice whose alternatives were tried without repairs may try them again with repairs.
Before it does, the changes of the value stack are taken back.  Variables are not: an
action of the first round may have set a variable of the rule invocation in progress, and
the second round finds it set.  The variables of the callers are out of reach, and so are
those that no action in the alternatives writes; actions of the rules that are invoked
write to variables of their own.

Main results:

- `Workspace.keeps_run`: an action leaves the callers' variables, and those of its own
  that it does not write, as they were.
- `Derives.keeps`: so does every evaluation.
- `Reached.second_round`: what the second round of a choice starts from.
- `second_round_unlike_entry`: an action that is run again and sees what it did before.
-/

namespace Peg

open Text Eval

variable {V : Type}

/-! ## Variables that are not written -/

/-- Whether an operation writes to a variable. -/
def Op.writes (index : Nat) : Op V → Bool
  | .set other .. | .take other _ => other == index
  | _ => false

/-- The program does not write to a variable, whatever its operations answer. -/
def Program.Spares {α : Type} (index : Nat) : Program V α → Prop
  | .done _ | .fail _ => True
  | .perform op next => op.writes index = false ∧ ∀ answer, (next answer).Spares index

/-- The action does not write to a variable, whatever was matched. -/
def Action.Spares (index : Nat) (action : Action V) : Prop :=
  ∀ view, (action view).Spares index

/-- From one table of variables to another the callers' variables stay as they were, and
some of the innermost invocation's do. -/
structure Locals.Keeps {κ : Type} {T : κ → Type} (spared : Nat → Prop)
    (before after : Locals T) : Prop where
  valid : after.Valid
  callers : before.SameCallers after
  view_eq : ∀ index, spared index → after.view index = before.view index

namespace Locals

variable {κ : Type} {T : κ → Type} {spared : Nat → Prop}

/-- Nothing has been written yet. -/
theorem Keeps.refl {locals : Locals T} (h : locals.Valid) : locals.Keeps spared locals :=
  ⟨h, .refl locals, fun _ _ => rfl⟩

/-- A stretch behind another. -/
theorem Keeps.trans {a b c : Locals T} (hab : a.Keeps spared b) (hbc : b.Keeps spared c) :
    a.Keeps spared c where
  valid := hbc.valid
  callers := hab.callers.trans hbc.callers
  view_eq index hindex := (hbc.view_eq index hindex).trans (hab.view_eq index hindex)

/-- Whatever becomes of the variables of an invocation, its end brings back the
caller's. -/
theorem Keeps.leave {locals after : Locals T} (hlocals : locals.Valid)
    (h : locals.enter.Keeps (fun _ => False) after) : locals.Keeps spared after.leave := by
  rw [h.callers.leave_eq]
  exact .refl hlocals

end Locals

namespace Workspace

/-- A variable that an operation does not write to stays as it was. -/
theorem view_perform {space : Workspace V} (h : space.vars.Valid) {op : Op V} {index : Nat}
    (hop : op.writes index = false) :
    (space.perform op).2.vars.view index = space.vars.view index := by
  cases op with
  | set other kind content =>
      have hne : index ≠ other := fun heq => by simp [Op.writes, heq] at hop
      change (space.vars.set other kind content).view index = _
      rw [Locals.view_set h, Function.update_of_ne hne]
  | take other kind =>
      have hne : index ≠ other := fun heq => by simp [Op.writes, heq] at hop
      change (space.vars.erase other).view index = _
      rw [Locals.view_erase h, Function.update_of_ne hne]
  | push | peekAt | values | get => rfl
  | pushAt | popAt | pokeAt | dup | reverseTop => simp only [perform, vars_update]

/-- An action leaves the callers' variables, and those of its own that it does not write
to, as they were. -/
theorem keeps_run {α : Type} {spared : Nat → Prop} {program : Program V α}
    (h : ∀ index, spared index → program.Spares index) (space : Workspace V)
    (hvars : space.vars.Valid) : space.vars.Keeps spared (program.run space).2.vars := by
  induction program generalizing space with
  | done result => exact .refl hvars
  | fail error => exact .refl hvars
  | perform op next ih =>
      rcases space.callers_perform hvars op with ⟨hvalid, hcallers⟩
      have hstep : space.vars.Keeps spared (space.perform op).2.vars :=
        ⟨hvalid, hcallers, fun index hindex => view_perform hvars (h index hindex).1⟩
      exact hstep.trans (ih _ (fun index hindex => (h index hindex).2 _) _ hvalid)

end Workspace

variable {env : Env V} {spared : Nat → Prop} {a : Nat} {task : Task V} {m left : Machine V}
variable {o : Verdict × Machine V} {made : List StandIn}

namespace Eval

/-- Going back after a mismatch writes no variables. -/
theorem keeps_rewinding {eval : Eval V} (h : m.vars.Keeps spared (eval m).2.vars) :
    m.vars.Keeps spared (rewinding eval m).2.vars := by
  rwa [vars_rewinding]

/-- An action that spares a variable keeps it. -/
theorem keeps_runAction {action : Action V} (h : ∀ index, spared index → action.Spares index)
    (hvars : m.vars.Valid) (span : Span) (synthetic : Bool) :
    m.vars.Keeps spared (runAction env action span synthetic m).2.vars := by
  let view : MatchView := ⟨env.source.text, span, synthetic, env.pass.isRepair⟩
  have hrun : m.vars.Keeps spared ((action view).run ⟨m.stack, m.vars⟩).2.vars :=
    Workspace.keeps_run (fun index hindex => h index hindex view) ⟨m.stack, m.vars⟩ hvars
  unfold runAction
  dsimp only
  generalize (action _).run ⟨m.stack, m.vars⟩ = result at hrun ⊢
  rcases result with ⟨error | _ | _, space⟩
  · exact hrun
  · exact hrun
  · exact hrun

end Eval

/-- An evaluation leaves the callers' variables, and those that no action of its own writes
to, as they were.  The actions of the rules it invokes do not matter. -/
theorem Derives.keeps (h : Derives env a task m o made) (hvars : m.vars.Valid)
    (htask : task.Admits fun action => ∀ index, spared index → action.Spares index) :
    m.vars.Keeps spared o.2.vars := by
  induction h generalizing spared with
  | terminal hterminal =>
      refine keeps_rewinding ?_
      rw [vars_terminal]
      exact .refl hvars
  | action => exact keeps_rewinding (keeps_runAction (Expr.Admits.allows htask) hvars _ _)
  | seq hitems ih =>
      exact keeps_rewinding (ih hvars fun _ hpart => Expr.Admits.part htask hpart)
  | done | no_alternative | unknown | limit => exact .refl hvars
  | @act_next a start inherited action items previous synthetic m left o made hact hrest ih =>
      have hfirst : m.vars.Keeps spared (runAction env action previous synthetic m).2.vars :=
        keeps_runAction (htask _ List.mem_cons_self).allows hvars previous synthetic
      rw [hact] at hfirst
      exact hfirst.trans (ih hfirst.valid (List.forall_mem_cons.1 htask).2)
  | act_last hends => exact keeps_runAction (htask _ List.mem_cons_self).allows hvars _ _
  | part_next hitem hpart hrest ihpart ihrest =>
      have hfirst := ihpart hvars (htask _ List.mem_cons_self)
      exact hfirst.trans (ihrest hfirst.valid (List.forall_mem_cons.1 htask).2)
  | part_last hitem hpart hends ih => exact ih hvars (htask _ List.mem_cons_self)
  | choice_once honce hround ih | choice_first htwo hround hends ih =>
      exact keeps_rewinding (ih hvars fun _ hpart => Expr.Admits.part htask hpart)
  | choice_second htwo hround hnoted hagain ihround ihagain =>
      have hfirst := ihround hvars fun _ hpart => Expr.Admits.part htask hpart
      have hsecond := ihagain hfirst.valid fun _ hpart => Expr.Admits.part htask hpart
      exact keeps_rewinding (hfirst.trans hsecond)
  | alternative_next hmore hfirst hrest ihfirst ihrest =>
      have hmiss := ihfirst hvars (htask _ List.mem_cons_self)
      exact hmiss.trans (ihrest hmiss.valid (List.forall_mem_cons.1 htask).2)
  | alternative_last hends hfirst ih => exact ih hvars (htask _ List.mem_cons_self)
  | star hmany ih => exact keeps_rewinding (ih hvars (Expr.Admits.part htask List.mem_cons_self))
  | many_next hfirst hless hrest ihfirst ihrest =>
      have hround := ihfirst hvars htask
      exact hround.trans (ihrest hround.valid htask)
  | many_last hfirst hends ih =>
      rw [snd_accepted]
      exact ih hvars htask
  | plus_next hfirst hless hrest ihfirst ihrest =>
      have hbody := Expr.Admits.part htask List.mem_cons_self
      have hround := ihfirst hvars hbody
      exact keeps_rewinding (hround.trans (ihrest hround.valid hbody))
  | plus_last hfirst hends ih =>
      exact keeps_rewinding (ih hvars (Expr.Admits.part htask List.mem_cons_self))
  | optional hbody ih =>
      refine keeps_rewinding ?_
      rw [Eval.optional_eq, snd_keepingCommitment, snd_accepted]
      exact ih hvars (Expr.Admits.part htask List.mem_cons_self)
  | notAhead hbody ih | ahead hbody ih =>
      exact keeps_rewinding (ih hvars (Expr.Admits.part htask List.mem_cons_self))
  | @label a name body m o made hbody ih =>
      refine keeps_rewinding ?_
      rcases exists_snd_labeled env name (fun _ => o) m with ⟨_, _, hleft⟩
      rw [hleft]
      exact ih hvars (Expr.Admits.part htask List.mem_cons_self)
  | rule hcall ih => exact keeps_rewinding (ih hvars trivial)
  | @hit a id definition refused m hdefinition hknown =>
      rcases exists_knownMismatch env id refused m with ⟨_, _, _, hleft⟩
      rw [hleft]
      exact .refl hvars
  | @body a id definition m o made hdefinition hknown hbody ih =>
      rcases exists_snd_body env id definition (memoKey? env id definition m)
        (fun _ => o) (countMiss env definition m) with ⟨_, _, _, _, hleft⟩
      -- In the body nothing is spared: its variables are gone when it is left.
      have hinside : m.vars.enter.Keeps (fun _ => False) o.2.vars := by
        rw [countMiss_eq] at ih
        exact ih m.vars.valid_enter fun _ _ _ => False.elim
      rw [hleft]
      exact hinside.leave hvars

/-! ## The second round -/

/-- Wherever a repairing pass gets to a choice whose first round does not match and has had
to refuse a repair, the choice comes to its alternatives from the machine that its second
round starts with.  There the value stack is what it was when the choice began, and so are
the variables of the callers.  The variables of the rule invocation in progress are what
the first round made of them: those that no action in the alternatives writes to are what
they were. -/
theorem Reached.second_round {root : RuleId} {items : List (Expr V)}
    (hreached : Reached env root a (.expr (.choice items)) m)
    (htwo : takesTwoRounds env m = true)
    (hround : (Task.alternatives items).run env a (openRound m) = (.mismatched, left))
    (hnoted : left.wouldInsert = true) :
    Begins env a (.expr (.choice items)) m a (.alternatives items) (undoRound m left) ∧
      (Task.expr (.choice items)).run env a m =
        (Task.alternatives items).run env a (undoRound m left) ∧
      (undoRound m left).stack = m.stack ∧
      m.vars.SameCallers (undoRound m left).vars ∧
      (undoRound m left).vars = left.vars ∧
      ∀ index, (∀ item ∈ items, item.Admits (Action.Spares index)) →
        (undoRound m left).vars.view index = m.vars.view index := by
  have hm := hreached.valid
  rcases exists_derives env a (.alternatives items) (openRound m) with ⟨made, hfirst⟩
  rw [hround] at hfirst
  rcases exists_derives env a (.alternatives items) (undoRound m left) with ⟨later, hsecond⟩
  have hframe : (openRound m).Frame env left := hfirst.framed ⟨hm.within, hm.vars⟩
  have hstack : left.stack.rollback = m.stack := hframe.tracks.rollback_eq
  refine ⟨.choice_second htwo hround hnoted, choice_of_noted htwo hfirst hnoted hsecond, hstack,
    hframe.callers, rfl, fun index hitems => ?_⟩
  have hkeeps : (openRound m).vars.Keeps (fun other => other = index) left.vars := by
    refine hfirst.keeps hm.vars fun item hitem => ?_
    rintro action haction other rfl
    exact hitems item hitem action haction
  exact hkeeps.view_eq index rfl

/-- Push a variable, or zero if it is not set, and set it to one. -/
def countTry : Action Nat := fun _ => do
  let tries ← Program.get 0 .value
  Program.push (tries.getD 0)
  Program.set 0 .value 1
  return true

/-- Two alternatives, the first of which counts how often it is tried. -/
def countedItems : List (Expr Nat) :=
  [.seq [.action countTry, .char 'b'], .char 'c']

/-- A grammar of a choice behind a character. -/
def counted : Grammar Nat where
  rules := #[⟨"start", .seq [.char 'x', .choice countedItems], {}⟩]

/-- A repairing pass over a text that breaks off in front of the choice. -/
def countedRepair : Env Nat :=
  ⟨counted, .plain ['x'], {}, .repair 1⟩

/-- The pass gets to the choice with no variable set, and leaves its first round with one
set to one. -/
theorem exists_reached_counted :
    ∃ m left, Reached countedRepair ⟨0⟩ 255 (.expr (.choice countedItems)) m ∧
      takesTwoRounds countedRepair m = true ∧
      (Task.alternatives countedItems).run countedRepair 255 (openRound m) =
        (.mismatched, left) ∧
      left.wouldInsert = true ∧ m.vars = ⟨[], [0]⟩ ∧ left.vars = ⟨[⟨0, .value, 1⟩], [0]⟩ := by
  have hbody : Reached countedRepair ⟨0⟩ 255 _ _ := .part .start (.body rfl rfl)
  have hbehind := (hbody.part .seq).part (.part_next rfl (Prod.ext (by cbv) rfl))
  exact ⟨_, _, hbehind.part (.part rfl), by cbv, Prod.ext (by cbv) rfl, by cbv, by cbv, by cbv⟩

/-- A second round in which one variable is written and another is spared. -/
theorem second_round_counted :
    ∃ m left, Reached countedRepair ⟨0⟩ 255 (.expr (.choice countedItems)) m ∧
      takesTwoRounds countedRepair m = true ∧
      (Task.alternatives countedItems).run countedRepair 255 (openRound m) =
        (.mismatched, left) ∧
      left.wouldInsert = true ∧
      (Task.expr (.choice countedItems)).run countedRepair 255 m =
        (Task.alternatives countedItems).run countedRepair 255 (undoRound m left) ∧
      (undoRound m left).stack = m.stack ∧
      (undoRound m left).vars.view 1 = m.vars.view 1 := by
  rcases exists_reached_counted with ⟨m, left, hreached, htwo, hround, hnoted, -, -⟩
  have hspares : ∀ item ∈ countedItems, item.Admits (Action.Spares 1) := by
    intro item hitem action haction
    have hcount : action = countTry := by
      simp only [countedItems, List.mem_cons, List.not_mem_nil, or_false] at hitem
      rcases hitem with rfl | rfl
      · simpa [Expr.subterms, Expr.subtermsOf] using haction
      · simp [Expr.subterms] at haction
    rw [hcount]
    exact fun _ => ⟨rfl, fun _ => ⟨rfl, fun _ => ⟨rfl, fun _ => trivial⟩⟩⟩
  rcases hreached.second_round htwo hround hnoted with ⟨-, hrun, hstack, -, -, hview⟩
  exact ⟨m, left, hreached, htwo, hround, hnoted, hrun, hstack, hview 1 hspares⟩

/-- The second round finds a variable set that was not set when the choice began, and the
action that is run again pushes another value than it did before. -/
theorem second_round_unlike_entry :
    (∃ draft : Draft Nat, draft.build = .ok counted) ∧
      (∃ m left, Reached countedRepair ⟨0⟩ 255 (.expr (.choice countedItems)) m ∧
        takesTwoRounds countedRepair m = true ∧
        (Task.alternatives countedItems).run countedRepair 255 (openRound m) =
          (.mismatched, left) ∧
        left.wouldInsert = true ∧ m.vars.get? 0 .value = none ∧
        (undoRound m left).vars.get? 0 .value = some 1) ∧
      ∃ failure recovered,
        (execute counted { recovery := true } (.plain ['x']) ⟨0⟩).result =
          .ok (.failed failure) ∧
        failure.recovered? = some recovered ∧ recovered.values = [1] := by
  refine ⟨⟨(Draft.empty.newVar.2.rule "start" (.seq [.char 'x', .choice countedItems])).2, by cbv⟩,
    ?_, ?_⟩
  · rcases exists_reached_counted with ⟨m, left, hreached, htwo, hround, hnoted, hentry, hleft⟩
    refine ⟨m, left, hreached, htwo, hround, hnoted, ?_, ?_⟩
    · rw [hentry]
      rfl
    · change left.vars.get? 0 .value = some 1
      rw [hleft]
      rfl
  · have hfailed : (execute counted { recovery := true } (.plain ['x']) ⟨0⟩).result =
        .ok (.failed ⟨⟨1, 0, 1⟩, ["'b'", "'c'"], none,
          some ⟨⟨1, 0, 1⟩, true, [1], [⟨⟨1, 0, 1⟩, "'b'"⟩], none⟩, ⟨2, 2, 0, 0, 3, 1, 1⟩⟩) := by
      cbv
    exact ⟨_, _, hfailed, rfl, rfl⟩

end Peg
