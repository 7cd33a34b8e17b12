import Peg.Proofs.Memo.Settling

/-!
# The evaluations that a pass gets to

A pass starts with the invocation of its root, and an evaluation begins others as its
parts.  Wherever a pass gets to, the reading head is in the text, and what is remembered
is true.

Main results:

- `Begins`: what an evaluation begins.
- `Reached.valid`: wherever a pass gets to, the reading head is in the text and the table
  of variables in order.
- `Begins.ready`: what is in order at the start of an evaluation is in order at the start
  of its parts.
- `Reached.ready`: so it is wherever a pass gets to.
-/

namespace Peg

open Text Eval

variable {V : Type}

/-! ## Parts of an evaluation -/

/-- An evaluation begins another one as its part: given are the invocations that may still
be nested, the task and the machine, of the whole and of the part. -/
inductive Begins (env : Env V) : Nat → Task V → Machine V → Nat → Task V → Machine V → Prop
  | seq {a : Nat} {items : List (Expr V)} {m : Machine V} :
      Begins env a (.expr (.seq items)) m a
        (.items m.offset m.committed items (Span.emptyAt m.offset) false) m
  | act_next {a start : Nat} {inherited : Bool} {action : Action V} {items : List (Expr V)}
      {previous : Span} {synthetic : Bool} {m left : Machine V}
      (hact : runAction env action previous synthetic m = (.matched, left)) :
      Begins env a (.items start inherited (.action action :: items) previous synthetic) m a
        (.items start inherited items previous synthetic) left
  | part {a start : Nat} {inherited : Bool} {item : Expr V} {items : List (Expr V)}
      {previous : Span} {synthetic : Bool} {m : Machine V} (hitem : item.isAction = false) :
      Begins env a (.items start inherited (item :: items) previous synthetic) m a (.expr item)
        { m with committed := inherited || start < m.offset }
  | part_next {a start : Nat} {inherited : Bool} {item : Expr V} {items : List (Expr V)}
      {previous : Span} {synthetic : Bool} {m left : Machine V} (hitem : item.isAction = false)
      (hpart : (Task.expr item).run env a { m with committed := inherited || start < m.offset } =
        (.matched, left)) :
      Begins env a (.items start inherited (item :: items) previous synthetic) m a
        (.items start inherited items ⟨m.offset, left.offset⟩
          (Span.isEmpty ⟨m.offset, left.offset⟩ && m.inserted < left.inserted)) left
  | choice_once {a : Nat} {items : List (Expr V)} {m : Machine V}
      (honce : takesTwoRounds env m = false) :
      Begins env a (.expr (.choice items)) m a (.alternatives items) m
  | choice_first {a : Nat} {items : List (Expr V)} {m : Machine V}
      (htwo : takesTwoRounds env m = true) :
      Begins env a (.expr (.choice items)) m a (.alternatives items) (openRound m)
  | choice_second {a : Nat} {items : List (Expr V)} {m left : Machine V}
      (htwo : takesTwoRounds env m = true)
      (hround : (Task.alternatives items).run env a (openRound m) = (.mismatched, left))
      (hnoted : left.wouldInsert = true) :
      Begins env a (.expr (.choice items)) m a (.alternatives items) (undoRound m left)
  | alternative {a : Nat} {item : Expr V} {items : List (Expr V)} {m : Machine V} :
      Begins env a (.alternatives (item :: items)) m a (.expr item) m
  | alternative_next {a : Nat} {item : Expr V} {items : List (Expr V)} {m left : Machine V}
      (hmore : items ≠ []) (hfirst : (Task.expr item).run env a m = (.mismatched, left)) :
      Begins env a (.alternatives (item :: items)) m a (.alternatives items) left.backtrack
  | star {a : Nat} {body : Expr V} {m : Machine V} :
      Begins env a (.expr (.star body)) m a (.many body) m
  | many {a : Nat} {body : Expr V} {m : Machine V} :
      Begins env a (.many body) m a (.expr body) { m with committed := false }
  | many_next {a : Nat} {body : Expr V} {m left : Machine V}
      (hfirst : (Task.expr body).run env a { m with committed := false } = (.matched, left))
      (hless : remaining env left < remaining env m) :
      Begins env a (.many body) m a (.many body) left
  | plus {a : Nat} {body : Expr V} {m : Machine V} :
      Begins env a (.expr (.plus body)) m a (.expr body) m
  | plus_next {a : Nat} {body : Expr V} {m left : Machine V}
      (hfirst : (Task.expr body).run env a m = (.matched, left))
      (hless : remaining env left < remaining env m) :
      Begins env a (.expr (.plus body)) m a (.many body) left
  | optional {a : Nat} {body : Expr V} {m : Machine V} :
      Begins env a (.expr (.optional body)) m a (.expr body) { m with committed := false }
  | notAhead {a : Nat} {body : Expr V} {m : Machine V} :
      Begins env a (.expr (.notAhead body)) m a (.expr body) (openProbe m)
  | ahead {a : Nat} {body : Expr V} {m : Machine V} :
      Begins env a (.expr (.ahead body)) m a (.expr body) (openProbe m)
  | label {a : Nat} {name : String} {body : Expr V} {m : Machine V} :
      Begins env a (.expr (.label name body)) m a (.expr body) (openLabel name m)
  | rule {a : Nat} {id : RuleId} {m : Machine V} :
      Begins env a (.expr (.rule id)) m a (.call id) m
  | body {a : Nat} {id : RuleId} {definition : Rule V} {m : Machine V}
      (hdefinition : env.grammar.rule? id = some definition)
      (hknown : known? env id definition m = none) :
      Begins env (a + 1) (.call id) m a (.expr definition.body)
        (enterRule id definition (countMiss env definition m))

/-- The evaluations that a pass gets to. -/
inductive Reached (env : Env V) (root : RuleId) : Nat → Task V → Machine V → Prop
  | start : Reached env root env.settings.maxDepth (.call root) (passStart env)
  | part {a a' : Nat} {task task' : Task V} {m m' : Machine V} (h : Reached env root a task m)
      (hbegins : Begins env a task m a' task' m') : Reached env root a' task' m'

variable {env : Env V} {root : RuleId} {a a' : Nat} {task task' : Task V} {m m' left : Machine V}
variable {verdict : Verdict}

/-! ## What is in order there -/

/-- What is in order when an evaluation starts is in order when a part of it starts. -/
theorem Begins.valid (h : Begins env a task m a' task' m') (hm : m.Valid env) : m'.Valid env := by
  have hsame {committed : Bool} : Machine.Valid env { m with committed := committed } :=
    ⟨hm.within, hm.vars⟩
  cases h with
  | seq | choice_once | alternative | star | plus | rule => exact hm
  | part | many | optional => exact hsame
  | choice_first | notAhead | ahead | label => exact ⟨hm.within, hm.vars⟩
  | act_next hact => exact (frame_runAction hm hact).valid
  | part_next hitem hpart => exact Task.valid_of_run hsame hpart nofun
  | choice_second htwo hround hnoted =>
      have hopen : (openRound m).Valid env := ⟨hm.within, hm.vars⟩
      have hleft := Task.valid_of_run hopen hround nofun
      exact ⟨hleft.within, hleft.vars⟩
  | alternative_next hmore hfirst =>
      have hleft := Task.valid_of_run hm hfirst nofun
      exact ⟨hleft.within, hleft.vars⟩
  | many_next hfirst hless => exact Task.valid_of_run hsame hfirst nofun
  | plus_next hfirst hless => exact Task.valid_of_run hm hfirst nofun
  | @body _ id definition _ hdefinition hknown =>
      rw [countMiss_eq]
      exact ⟨hm.within, m.vars.valid_enter⟩

/-- So it is in order wherever a pass gets to. -/
theorem Reached.valid (h : Reached env root a task m) : m.Valid env := by
  induction h with
  | start => exact valid_passStart env
  | part h hbegins ih => exact hbegins.valid ih

/-- A machine that is in order, with a memo that is true. -/
theorem ready_of_remembers (hvalid : m.Valid env) (hsound : Remembers env m.memo) :
    (memoManner env).Ready env m m :=
  ⟨hvalid, .refl m, rfl, hsound⟩

theorem ready_runAction {action : Action V} {span : Span} {synthetic : Bool}
    (hready : (memoManner env).Ready env m m)
    (hact : runAction env action span synthetic m = (.matched, left)) :
    (memoManner env).Ready env left left := by
  have hvalid : left.Valid env := (frame_runAction hready.valid hact).valid
  rcases exists_snd_runAction env action span synthetic m with ⟨_, _, _, hleft⟩
  rw [hact] at hleft
  obtain rfl : left = _ := hleft
  exact ready_of_remembers hvalid hready.sound

section InOrder

variable (hmemo : env.settings.memoization = true → env.grammar.MemoActionFree)
variable (hgrammar : env.grammar.Admits Action.VariableFree)

include hmemo hgrammar

/-- An evaluation leaves a machine that is in order behind. -/
theorem ready_of_run (hrun : task.run env a m = (verdict, left))
    (htask : task.Admits Action.VariableFree) (hready : (memoManner env).Ready env m m)
    (hends : ∀ error, verdict ≠ .aborted error) : (memoManner env).Ready env left left := by
  rcases exists_derives env a task m with ⟨made, hmade⟩
  rw [hrun] at hmade
  have hlimited : verdict.limited = false := Verdict.limited_eq_false_iff.2 fun _ _ => hends _
  have hframed := hmade.framed hready.valid
  rcases hmade.settles_memo hmemo hgrammar htask hlimited hready with ⟨o', -, halike⟩
  cases halike with
  | matched halong => exact ready_of_remembers (Task.Frame.valid hframed) halong.sound
  | mismatched halong => exact ready_of_remembers (Task.Frame.valid hframed) halong.sound
  | @aborted error l l' hgaps => exact absurd rfl (hends error)

/-- What is in order at the start of an evaluation is in order at the start of its
parts. -/
theorem Begins.ready (h : Begins env a task m a' task' m')
    (htask : task.Admits Action.VariableFree) (hready : (memoManner env).Ready env m m) :
    task'.Admits Action.VariableFree ∧ (memoManner env).Ready env m' m' := by
  cases h with
  | seq | choice_once => exact ⟨fun _ hpart => Expr.Admits.part htask hpart, hready⟩
  | act_next hact => exact ⟨(List.forall_mem_cons.1 htask).2, ready_runAction hready hact⟩
  | part hitem => exact ⟨htask _ List.mem_cons_self, hready.commit _⟩
  | part_next hitem hpart =>
      exact ⟨(List.forall_mem_cons.1 htask).2,
        ready_of_run hmemo hgrammar hpart (htask _ List.mem_cons_self) (hready.commit _) nofun⟩
  | choice_first htwo =>
      exact ⟨fun _ hpart => Expr.Admits.part htask hpart, ready_openRound_memo hready⟩
  | choice_second htwo hround hnoted =>
      have hfirst := ready_of_run hmemo hgrammar hround
        (fun _ hpart => Expr.Admits.part htask hpart) (ready_openRound_memo hready) nofun
      exact ⟨fun _ hpart => Expr.Admits.part htask hpart,
        ready_of_remembers ⟨hfirst.valid.within, hfirst.valid.vars⟩ hfirst.sound⟩
  | alternative => exact ⟨htask _ List.mem_cons_self, hready⟩
  | alternative_next hmore hfirst =>
      have hleft := ready_of_run hmemo hgrammar hfirst (htask _ List.mem_cons_self) hready nofun
      exact ⟨(List.forall_mem_cons.1 htask).2, hleft.backtrack⟩
  | star | plus => exact ⟨Expr.Admits.part htask List.mem_cons_self, hready⟩
  | many => exact ⟨htask, hready.commit false⟩
  | many_next hfirst hless =>
      exact ⟨htask, ready_of_run hmemo hgrammar hfirst htask (hready.commit false) nofun⟩
  | plus_next hfirst hless =>
      have hbody := Expr.Admits.part htask List.mem_cons_self
      exact ⟨hbody, ready_of_run hmemo hgrammar hfirst hbody hready nofun⟩
  | optional => exact ⟨Expr.Admits.part htask List.mem_cons_self, hready.commit false⟩
  | notAhead | ahead => exact ⟨Expr.Admits.part htask List.mem_cons_self, hready.openProbe⟩
  | label => exact ⟨Expr.Admits.part htask List.mem_cons_self, hready.openLabel _⟩
  | rule => exact ⟨trivial, hready⟩
  | @body _ id definition _ hdefinition hknown =>
      have hcount := hready.countMiss definition
      exact ⟨hgrammar _ _ hdefinition,
        (ready_of_remembers hcount.valid hcount.sound).enterRule _ _⟩

/-- Wherever a pass gets to, things are in order. -/
theorem Reached.ready (h : Reached env root a task m) :
    task.Admits Action.VariableFree ∧ (memoManner env).Ready env m m := by
  induction h with
  | start =>
      have hstart := ready_passStart env
      exact ⟨trivial, ready_of_remembers hstart.valid hstart.sound⟩
  | part h hbegins ih => exact hbegins.ready hmemo hgrammar ih.1 ih.2

end InOrder

end Peg
