import Mathlib
import Peg.Proofs.Action.Replays
import Peg.Proofs.Parse.FirstPass
import Peg.Proofs.Repair.Reached
import Peg.Proofs.Text.Written

/-!
# No slice and no index misses

Wherever a pass gets to, and whatever it leaves behind there, also when it is ended by an
error: the reading head stands at a character boundary of the text, in front of what follows
there; the spans that actions see and those of all nodes begin and end at character
boundaries, and do not end in front of their start; and the journals of the value stack can be
replayed.

One induction over derivations carries the three together.  That spans do not end in front of
their start needs the frame of a match, which does not move the reading head back.

Main results:

- `Span.Fits.slice?_eq` and `Span.Fits.slice_eq_nil_iff`: slicing at such a span succeeds,
  and gives no characters only if it covers none.
- `Derives.inBounds`: every evaluation leaves a machine in bounds behind.
- `Begins.inBounds` and `Reached.inBounds`: so it is wherever a pass gets to.
- `no_slice_or_index_misses`: so it is in every parse, its trees included.
-/

namespace Peg

open Text Eval

/-! ## Spans of a text -/

namespace Text

variable {text : List Char} {span : Span} {start stop : Nat}

/-- A span begins and ends at character boundaries of a text, and does not end in front of
its start. -/
structure Span.Fits (text : List Char) (span : Span) : Prop where
  start_le : span.start ≤ span.stop
  start : Boundary text span.start
  stop : Boundary text span.stop

/-- An empty span lies within the text if its place does. -/
theorem Span.fits_emptyAt (h : Boundary text start) : (Span.emptyAt start).Fits text :=
  ⟨Nat.le_refl _, h, h⟩

/-- Between two boundaries there is a part of the text. -/
theorem Boundary.exists_between (hstart : Boundary text start) (hstop : Boundary text stop)
    (hle : start ≤ stop) : ∃ front middle back, text = front ++ (middle ++ back) ∧
      start = byteSize front ∧ stop = byteSize front + byteSize middle := by
  rcases hstart with ⟨front, rest, rfl, rfl⟩
  rcases hstop with ⟨before, back, htext, rfl⟩
  rcases List.append_eq_append_iff.1 htext with ⟨middle, rfl, rfl⟩ | ⟨middle, rfl, rfl⟩
  · exact ⟨front, middle, back, rfl, rfl, byteSize_append front middle⟩
  · -- The later boundary is the earlier one, so there is nothing in between.
    have hzero : byteSize middle = 0 := by
      rw [byteSize_append] at hle
      omega
    obtain rfl : middle = [] := (byteSize_eq_zero_iff middle).1 hzero
    exact ⟨before ++ [], [], rest, rfl, rfl, by simp⟩

/-- Slicing at the span of a part succeeds. -/
theorem Span.Fits.slice?_eq (h : span.Fits text) :
    slice? span.start span.stop text = some (span.slice text) := by
  rcases h.start.exists_between h.stop h.start_le with ⟨front, middle, back, rfl, hstart, hstop⟩
  simp [Span.slice, slice?, hstart, hstop]

/-- The slice has as many bytes as the span. -/
theorem Span.Fits.byteSize_slice (h : span.Fits text) : byteSize (span.slice text) = span.size := by
  rcases h.start.exists_between h.stop h.start_le with ⟨front, middle, back, rfl, hstart, hstop⟩
  simp [Span.slice, slice?, Span.size, hstart, hstop]

/-- Nothing is sliced only if nothing is covered. -/
theorem Span.Fits.slice_eq_nil_iff (h : span.Fits text) :
    span.slice text = [] ↔ span.isEmpty = true := by
  have hle := h.start_le
  rw [← byteSize_eq_zero_iff, h.byteSize_slice, Span.size, Span.isEmpty, beq_iff_eq]
  omega

/-- What is in front of a head can be dropped from the text, and leaves what the head has to read.
-/
theorem Cursor.Within.dropBytes?_eq {cursor : Cursor} (h : cursor.Within text) :
    dropBytes? cursor.offset text = some cursor.rest := by
  rcases h with ⟨front, htext, hoffset⟩
  exact dropBytes?_eq_some_iff.2 ⟨front, htext, hoffset⟩

end Text

variable {V : Type} {text : List Char}

/-- The spans of all nodes of a tree fit a text. -/
def Tree.FitsIn (text : List Char) (tree : Tree) : Prop :=
  ∀ node ∈ tree.descendants, node.span.Fits text

/-- A node lies within the text if its span and its children do. -/
theorem Tree.fitsIn_node {label : String} {span : Span} {rule? : Option RuleId}
    {children : List Tree} (hspan : span.Fits text)
    (hchildren : ∀ child ∈ children, child.FitsIn text) :
    (Tree.node label span rule? children).FitsIn text := by
  unfold FitsIn
  rw [descendants_node, List.forall_mem_cons]
  refine ⟨hspan, fun node hnode => ?_⟩
  rcases mem_walk_iff.1 hnode with ⟨child, hchild, hnode⟩
  exact hchildren child hchild node hnode

/-! ## Machines in bounds -/

/-- The reading head is in the text, the spans of the finished nodes fit it, and the journals
of the stack can be replayed. -/
structure Machine.InBounds (text : List Char) (m : Machine V) : Prop where
  within : m.cursor.Within text
  nodes : ∀ tree ∈ m.nodes, tree.FitsIn text
  replayable : m.stack.Replayable

variable {env : Env V} {root : RuleId} {a a' : Nat} {task task' : Task V} {m m' left : Machine V}
variable {o : Verdict × Machine V} {made : List StandIn} {verdict : Verdict}

namespace Machine

/-- A node from where one machine stands to where a later one does. -/
theorem InBounds.addNode (h : left.InBounds text) (hm : m.InBounds text)
    (hle : m.offset ≤ left.offset) (label : String) (rule? : Option RuleId) :
    (left.addNode m label rule?).InBounds text where
  within := h.within
  nodes := by
    unfold Machine.addNode
    split
    next =>
        refine List.forall_mem_cons.2 ⟨?_, hm.nodes⟩
        apply Tree.fitsIn_node ⟨hle, hm.within.boundary, h.within.boundary⟩
        intro child hchild
        exact h.nodes child (List.mem_reverse.1 hchild)
    next => exact hm.nodes
  replayable := h.replayable

end Machine

/-- A pass starts at the front of the text and has built nothing. -/
theorem inBounds_passStart (env : Env V) : (passStart env).InBounds env.source.text := by
  rw [passStart_eq]
  exact ⟨(valid_start env).within, nofun, Stack.replayable_empty⟩

/-! ## Evaluations -/

namespace Eval

/-- After a mismatch everything is where it was. -/
theorem inBounds_rewinding {eval : Eval V} (h : (eval m).2.InBounds text) (hm : m.InBounds text) :
    (rewinding eval m).2.InBounds text := by
  unfold rewinding
  generalize eval m = o at h
  rcases o with ⟨_ | _ | _, left⟩
  · exact h
  · exact ⟨hm.within, hm.nodes, h.replayable⟩
  · exact h

/-- A terminal reads no further than the text goes. -/
theorem inBounds_terminal (e : Expr V) (hm : m.InBounds text) :
    (terminal env e m).2.InBounds text := by
  unfold terminal
  split
  next cursor hconsume =>
      rcases consume?_eq_some_iff.1 hconsume with ⟨consumed, -, hpast⟩
      exact ⟨hpast.within hm.within, hm.nodes, hm.replayable⟩
  next =>
      unfold missing
      split
      next =>
          rw [Machine.recordFailure_eq]
          exact ⟨hm.within, hm.nodes, hm.replayable⟩
      next errorOffset hpass =>
          split
          next =>
              split
              next => exact ⟨hm.within, hm.nodes, hm.replayable⟩
              next => exact ⟨hm.within, hm.nodes, hm.replayable⟩
          next => exact hm

/-- An action moves no heads and builds no nodes. -/
theorem inBounds_runAction (action : Action V) (span : Span) (synthetic : Bool)
    (hm : m.InBounds text) : (runAction env action span synthetic m).2.InBounds text := by
  let view : MatchView := ⟨env.source.text, span, synthetic, env.pass.isRepair⟩
  have hstack : ((action view).run ⟨m.stack, m.vars⟩).2.stack.Replayable :=
    hm.replayable.run (action view)
  simp only [runAction]
  generalize (action view).run ⟨m.stack, m.vars⟩ = result at hstack ⊢
  rcases result with ⟨error | _ | _, space⟩
  · exact ⟨hm.within, hm.nodes, hstack⟩
  · exact ⟨hm.within, hm.nodes, hstack⟩
  · exact ⟨hm.within, hm.nodes, hstack⟩

/-- Keeping a round moves nothing. -/
theorem inBounds_keepRound (h : left.InBounds text) : (keepRound m left).InBounds text :=
  ⟨h.within, h.nodes, h.replayable.commit⟩

/-- Taking a round back moves nothing. -/
theorem inBounds_undoRound (h : left.InBounds text) : (undoRound m left).InBounds text :=
  ⟨h.within, h.nodes, h.replayable.rollback⟩

/-- A lookahead goes back to where it was opened. -/
theorem inBounds_closeProbe (h : left.InBounds text) (hm : m.InBounds text) :
    (closeProbe m left).InBounds text :=
  ⟨hm.within, hm.nodes, h.replayable.rollback⟩

/-- A rule or label that fails goes back to the nodes from before. -/
theorem inBounds_noteFailure (h : left.InBounds text) (hm : m.InBounds text)
    (expected : Expected V) : (noteFailure env m left expected).InBounds text := by
  rw [noteFailure_eq]
  exact ⟨h.within, hm.nodes, h.replayable⟩

/-- The node of a label reaches from where it was opened to where it was closed. -/
theorem inBounds_labeled {name : String} (h : o.2.InBounds text) (hm : m.InBounds text)
    (hframe : Leaves ((openLabel name m).Frame env) o) :
    (labeled env name (fun _ => o) m).2.InBounds text := by
  rw [labeled_eq]
  rcases o with ⟨_ | _ | error, inside⟩
  · have hframe : (openLabel name m).Frame env inside := hframe
    have hinside : (closeLabel inside).InBounds text := ⟨h.within, h.nodes, h.replayable⟩
    exact hinside.addNode hm hframe.offset_le name none
  · have hinside : (closeLabel inside).InBounds text := ⟨h.within, h.nodes, h.replayable⟩
    exact inBounds_noteFailure hinside hm (.label name)
  · exact ⟨h.within, h.nodes, h.replayable⟩

/-- The node of a rule reaches from where it was entered to where it was left. -/
theorem inBounds_contribute {id : RuleId} {definition : Rule V} (h : left.InBounds text)
    (hm : m.InBounds text) (hle : m.offset ≤ left.offset) :
    (contribute id definition m left).InBounds text := by
  unfold contribute
  split
  next => exact h.addNode hm hle definition.name (some id)
  next => exact ⟨h.within, List.forall_mem_append.2 ⟨h.nodes, hm.nodes⟩, h.replayable⟩

/-- A rule stays within the text if its body does. -/
theorem inBounds_body {id : RuleId} {definition : Rule V} {key? : Option MemoKey}
    (h : o.2.InBounds text) (hm : m.InBounds text)
    (hframe : Leaves ((enterRule id definition m).Frame env) o) :
    (body env id definition key? (fun _ => o) m).2.InBounds text := by
  unfold body
  rcases o with ⟨_ | _ | error, inside⟩
  · have hframe : (enterRule id definition m).Frame env inside := hframe
    have hleft : (leaveRule definition m inside).InBounds text :=
      ⟨h.within, h.nodes, h.replayable⟩
    have hnode : (contribute id definition m (leaveRule definition m inside)).InBounds text :=
      inBounds_contribute hleft hm hframe.offset_le
    exact ⟨hnode.within, hnode.nodes, hnode.replayable⟩
  · dsimp only
    rw [Machine.recordNamed_eq, Machine.remember_eq]
    exact ⟨h.within, hm.nodes, h.replayable⟩
  · exact ⟨h.within, h.nodes, h.replayable⟩

end Eval

/-- Every evaluation leaves a machine in bounds behind, also one that ends the parse. -/
theorem Derives.inBounds (h : Derives env a task m o made) (hm : m.Valid env)
    (hstart : m.InBounds env.source.text) : o.2.InBounds env.source.text := by
  induction h with
  | terminal hterminal => exact inBounds_rewinding (inBounds_terminal _ hstart) hstart
  | action => exact inBounds_rewinding (inBounds_runAction _ _ _ hstart) hstart
  | seq hitems ih | star hmany ih | plus_last hfirst hends ih =>
      have hleft := ih hm hstart
      exact inBounds_rewinding ⟨hleft.within, hleft.nodes, hleft.replayable⟩ hstart
  | choice_once honce hround ih | rule hcall ih =>
      exact inBounds_rewinding (ih hm hstart) hstart
  | done | no_alternative | unknown | limit => exact hstart
  | @act_next a start inherited action items previous synthetic m left o made hact hrest ih =>
      have hleft : (runAction env action previous synthetic m).2.InBounds env.source.text :=
        inBounds_runAction action previous synthetic hstart
      rw [hact] at hleft
      exact ih (frame_runAction hm hact).valid hleft
  | act_last hends => exact inBounds_runAction _ _ _ hstart
  | @part_next a start inherited item items previous synthetic m left o made later hitem hpart
      hrest ihpart ihrest =>
      have hframe : Machine.Frame env { m with committed := inherited || start < m.offset } left :=
        hpart.framed ⟨hm.within, hm.vars⟩
      have hleft := ihpart ⟨hm.within, hm.vars⟩
        ⟨hstart.within, hstart.nodes, hstart.replayable⟩
      exact ihrest hframe.valid hleft
  | part_last hitem hpart hends ih =>
      exact ih ⟨hm.within, hm.vars⟩ ⟨hstart.within, hstart.nodes, hstart.replayable⟩
  | choice_first htwo hround hends ih =>
      have hleft := ih ⟨hm.within, hm.vars⟩
        ⟨hstart.within, hstart.nodes, hstart.replayable.openProbe⟩
      exact inBounds_rewinding (inBounds_keepRound hleft) hstart
  | @choice_second a items m left o made later htwo hround hnoted hagain ihround ihagain =>
      have hfirst : (openRound m).Frame env left := hround.framed ⟨hm.within, hm.vars⟩
      have hleft := ihround ⟨hm.within, hm.vars⟩
        ⟨hstart.within, hstart.nodes, hstart.replayable.openProbe⟩
      exact inBounds_rewinding (ihagain (hfirst.undoRound htwo).valid (inBounds_undoRound hleft))
        hstart
  | @alternative_next a item items m left o made later hmore hfirst hrest ihfirst ihrest =>
      have hframe : m.Frame env left := hfirst.framed hm
      have hleft := ihfirst hm hstart
      exact ihrest ⟨hframe.valid.within, hframe.valid.vars⟩
        ⟨hleft.within, hleft.nodes, hleft.replayable⟩
  | alternative_last hends hfirst ih => exact ih hm hstart
  | @many_next a body m left o made later hfirst hless hrest ihfirst ihrest =>
      have hframe : Machine.Frame env { m with committed := false } left :=
        hfirst.framed ⟨hm.within, hm.vars⟩
      have hleft := ihfirst ⟨hm.within, hm.vars⟩
        ⟨hstart.within, hstart.nodes, hstart.replayable⟩
      exact ihrest hframe.valid hleft
  | many_last hfirst hends ih =>
      rw [snd_accepted]
      exact ih ⟨hm.within, hm.vars⟩ ⟨hstart.within, hstart.nodes, hstart.replayable⟩
  | @plus_next a body m left o made later hfirst hless hrest ihfirst ihrest =>
      have hframe : m.Frame env left := hfirst.framed hm
      have hlast := ihrest hframe.valid (ihfirst hm hstart)
      exact inBounds_rewinding ⟨hlast.within, hlast.nodes, hlast.replayable⟩ hstart
  | optional hbody ih =>
      have hleft := ih ⟨hm.within, hm.vars⟩ ⟨hstart.within, hstart.nodes, hstart.replayable⟩
      refine inBounds_rewinding ?_ hstart
      rw [Eval.optional_eq, snd_keepingCommitment, snd_accepted]
      exact ⟨hleft.within, hleft.nodes, hleft.replayable⟩
  | notAhead hbody ih | ahead hbody ih =>
      have hleft := ih ⟨hm.within, hm.vars⟩
        ⟨hstart.within, hstart.nodes, hstart.replayable.openProbe⟩
      exact inBounds_rewinding (inBounds_closeProbe hleft hstart) hstart
  | @label a name body m o made hbody ih =>
      have hopen : (openLabel name m).Valid env := ⟨hm.within, hm.vars⟩
      have hleft := ih hopen ⟨hstart.within, nofun, hstart.replayable⟩
      exact inBounds_rewinding (inBounds_labeled hleft hstart (hbody.framed hopen)) hstart
  | @hit a id definition refused m hdefinition hknown =>
      rcases exists_knownMismatch env id refused m with ⟨_, _, _, hleft⟩
      rw [hleft]
      exact ⟨hstart.within, hstart.nodes, hstart.replayable⟩
  | @body a id definition m o made hdefinition hknown hbody ih =>
      rw [countMiss_eq] at hbody ih ⊢
      have hopen : (enterRule id definition { m with
          stats := (countMiss env definition m).stats }).Valid env :=
        ⟨hm.within, m.vars.valid_enter⟩
      have hleft := ih hopen ⟨hstart.within, nofun, hstart.replayable⟩
      exact inBounds_body hleft ⟨hstart.within, hstart.nodes, hstart.replayable⟩
        (hbody.framed hopen)

/-- Whatever a task leaves lies within the text. -/
theorem Task.inBounds_of_run (hm : m.Valid env) (hstart : m.InBounds env.source.text)
    (h : task.run env a m = (verdict, left)) : left.InBounds env.source.text := by
  rcases exists_derives env a task m with ⟨made, hmade⟩
  rw [h] at hmade
  exact hmade.inBounds hm hstart

/-! ## Wherever a pass gets to -/

/-- The span of the previous match fits a text, in what is left of a sequence. -/
def Task.PreviousFits (text : List Char) : Task V → Prop
  | .items _ _ _ previous _ => previous.Fits text
  | _ => True

/-- What is in bounds when an evaluation starts is in bounds when a part of it starts. -/
theorem Begins.inBounds (h : Begins env a task m a' task' m') (hm : m.Valid env)
    (hprevious : task.PreviousFits env.source.text) (hstart : m.InBounds env.source.text) :
    task'.PreviousFits env.source.text ∧ m'.InBounds env.source.text := by
  have hsame {committed : Bool} : Machine.InBounds env.source.text
      { m with committed := committed } := ⟨hstart.within, hstart.nodes, hstart.replayable⟩
  have hvalid {committed : Bool} : Machine.Valid env { m with committed := committed } :=
    ⟨hm.within, hm.vars⟩
  cases h with
  | seq => exact ⟨Span.fits_emptyAt hstart.within.boundary, hstart⟩
  | @act_next _ start inherited action items previous synthetic _ _ hact =>
      have hleft : (runAction env action previous synthetic m).2.InBounds env.source.text :=
        inBounds_runAction action previous synthetic hstart
      rw [hact] at hleft
      exact ⟨hprevious, hleft⟩
  | part | many | optional => exact ⟨trivial, hsame⟩
  | part_next hitem hpart =>
      have hleft := Task.inBounds_of_run hvalid hsame hpart
      have hframe : Machine.Frame env _ m' := Task.framed_expr hvalid hpart
      exact ⟨⟨hframe.offset_le, hstart.within.boundary, hleft.within.boundary⟩, hleft⟩
  | choice_once | alternative | star | plus | rule => exact ⟨trivial, hstart⟩
  | choice_first | notAhead | ahead =>
      exact ⟨trivial, hstart.within, hstart.nodes, hstart.replayable.openProbe⟩
  | choice_second htwo hround hnoted =>
      have hvalid : (openRound m).Valid env := ⟨hm.within, hm.vars⟩
      have hopen : (openRound m).InBounds env.source.text :=
        ⟨hstart.within, hstart.nodes, hstart.replayable.openProbe⟩
      exact ⟨trivial, inBounds_undoRound (Task.inBounds_of_run hvalid hopen hround)⟩
  | alternative_next hmore hfirst =>
      have hleft := Task.inBounds_of_run hm hstart hfirst
      exact ⟨trivial, hleft.within, hleft.nodes, hleft.replayable⟩
  | many_next hfirst hless => exact ⟨trivial, Task.inBounds_of_run hvalid hsame hfirst⟩
  | plus_next hfirst hless => exact ⟨trivial, Task.inBounds_of_run hm hstart hfirst⟩
  | label => exact ⟨trivial, hstart.within, nofun, hstart.replayable⟩
  | @body _ id definition _ hdefinition hknown =>
      rw [countMiss_eq]
      exact ⟨trivial, hstart.within, nofun, hstart.replayable⟩

/-- So it is in bounds wherever a pass gets to. -/
theorem Reached.inBounds (h : Reached env root a task m) :
    task.PreviousFits env.source.text ∧ m.InBounds env.source.text := by
  induction h with
  | start => exact ⟨trivial, inBounds_passStart env⟩
  | part h hbegins ih => exact hbegins.inBounds h.valid ih.1 ih.2

/-! ## Parses -/

/-- The span that an action sees that is run next. -/
def Task.actionSpan? (m : Machine V) : Task V → Option Span
  | .expr (.action _) => some (Span.emptyAt m.offset)
  | .items _ _ (.action _ :: _) previous _ => some previous
  | _ => none

/-- What an action gets to see lies within the text. -/
theorem Reached.fits_actionSpan? (h : Reached env root a task m) {span : Span}
    (hspan : task.actionSpan? m = some span) : span.Fits env.source.text := by
  unfold Task.actionSpan? at hspan
  split at hspan
  next =>
      cases hspan
      exact Span.fits_emptyAt h.inBounds.2.within.boundary
  next =>
      cases hspan
      exact h.inBounds.1
  next => cases hspan

/-- All spans of the tree of a pass fit the text. -/
theorem fitsIn_of_parseTree? {tree : Tree} (hrun : runPass env root = (verdict, left))
    (htree : parseTree? env root left = some tree) : tree.FitsIn env.source.text := by
  rw [runPass_eq] at hrun
  have hleft := Task.inBounds_of_run (valid_passStart env) (inBounds_passStart env) hrun
  have hwrapper : (Tree.node (env.grammar.ruleName root) ⟨0, left.offset⟩ none
      left.nodes.reverse).FitsIn env.source.text := by
    apply Tree.fitsIn_node ⟨Nat.zero_le _, boundary_zero _, hleft.within.boundary⟩
    intro child hchild
    exact hleft.nodes child (List.mem_reverse.1 hchild)
  unfold parseTree? at htree
  split at htree
  next =>
      cases htree
      unfold rootNode
      dsimp only
      split
      next node hnodes =>
          split
          next => exact hleft.nodes node (hnodes ▸ List.mem_singleton_self node)
          next => exact hwrapper
      next => exact hwrapper
  next => cases htree

/-- No slice and no index of a parse misses.  Whatever a pass evaluates, before it and behind
it the reading head stands in front of what follows there in the text, the nodes fit the text,
and all journals of the stack can be replayed, by depths as well as by indices from the
bottom; an action sees a span that fits the text.  The trees that a parse returns fit it as
well.  A span that fits can be sliced, and gives no characters only if it covers none. -/
theorem no_slice_or_index_misses (grammar : Grammar V) (settings : Settings) (source : Source)
    (root : RuleId) :
    (∀ pass a task m, Reached ⟨grammar, source, settings, pass⟩ root a task m →
      (∀ n, n = m ∨ n = (task.run ⟨grammar, source, settings, pass⟩ a m).2 →
        n.InBounds source.text ∧
        (dropBytes? n.offset source.text = some n.cursor.rest ∧
          n.offset ≤ byteSize source.text) ∧
        Ledger.replay? (records n.stack.journals.flatten n.stack.values) n.stack.toList =
          some (Stack.replay n.stack.journals.flatten n.stack.values).reverse) ∧
      ∀ span, task.actionSpan? m = some span → span.Fits source.text) ∧
    ((∀ success tree,
        (execute grammar settings source root).result = .ok (.succeeded success) →
          success.tree? = some tree → tree.FitsIn source.text) ∧
      ∀ failure recovered tree,
        (execute grammar settings source root).result = .ok (.failed failure) →
          failure.recovered? = some recovered → recovered.tree? = some tree →
            tree.FitsIn source.text) ∧
    ∀ span : Span, span.Fits source.text →
      slice? span.start span.stop source.text = some (span.slice source.text) ∧
        (span.slice source.text = [] ↔ span.isEmpty = true) := by
  refine ⟨fun pass a task m h => ⟨fun n hn => ?_, fun span hspan => h.fits_actionSpan? hspan⟩,
    ⟨fun success tree hsucceeded htree => ?_, fun failure recovered tree hfailed hrecovered
      htree => ?_⟩, fun span hspan => ⟨hspan.slice?_eq, hspan.slice_eq_nil_iff⟩⟩
  · have hbounds : n.InBounds source.text := by
      rcases hn with rfl | rfl
      · exact h.inBounds.2
      · exact Task.inBounds_of_run h.valid h.inBounds.2 rfl
    exact ⟨hbounds, ⟨hbounds.within.dropBytes?_eq, hbounds.within.boundary.offset_le⟩,
      hbounds.replayable.replay?_records⟩
  · rcases exists_of_succeeded hsucceeded with ⟨m, hrun, -, rfl⟩
    exact fitsIn_of_parseTree? hrun htree
  · rcases exists_of_recovered hfailed hrecovered with ⟨errorOffset, left, -, hrun, rfl⟩
    exact fitsIn_of_parseTree? hrun htree

/-- An action that takes the topmost value out. -/
def takeOut : Action Nat := fun _ => do
  let _ ← Program.pop
  return true

/-- A grammar that takes a value out ahead of a mark, behind a letter of two bytes. -/
def marked : Grammar Nat where
  rules := #[
    ⟨"marked", .seq [.literal "É" true, .action fun _ => do Program.push 7; return true,
      .ahead (.seq [.char ';', .action takeOut]), .label "mark" (.char ';')], {}⟩]

/-- A first pass over such a text. -/
def markedFirst : Env Nat :=
  ⟨marked, .plain ['é', ';'], { buildParseTree := true }, .first⟩

/-- Ahead of the mark the action sees the mark, and leaves a journal that puts the value
back; behind the letter stands the node of the mark. -/
theorem no_slice_or_index_misses_marked :
    (∃ a task m left, Reached markedFirst ⟨0⟩ a task m ∧
      task.actionSpan? m = some ⟨2, 3⟩ ∧ Span.Fits ['é', ';'] ⟨2, 3⟩ ∧
      left = (task.run markedFirst a m).2 ∧ left.stack.journals = [[.insert 0 7]] ∧
      left.InBounds ['é', ';']) ∧
    ∃ success tree,
      (execute marked { buildParseTree := true } (.plain ['é', ';']) ⟨0⟩).result =
        .ok (.succeeded success) ∧
      success.tree? = some tree ∧ tree.children.map Tree.span = [⟨2, 3⟩] ∧
      tree.FitsIn ['é', ';'] ∧ slice? 2 3 ['é', ';'] = some (Span.slice ⟨2, 3⟩ ['é', ';']) := by
  have hall := no_slice_or_index_misses marked { buildParseTree := true } (.plain ['é', ';']) ⟨0⟩
  have hbody : Reached markedFirst ⟨0⟩ 255 _ _ := .part (.part .start (.body rfl rfl)) .seq
  have hletter := Reached.part hbody (.part_next rfl rfl)
  have hpushed := hletter.part (.act_next rfl)
  have hahead := ((hpushed.part (.part rfl)).part .ahead).part .seq
  have htaken := hahead.part (.part_next rfl rfl)
  have hsucceeded :
      (execute marked { buildParseTree := true } (.plain ['é', ';']) ⟨0⟩).result =
        .ok (.succeeded ⟨⟨3, 0, 3⟩, [7],
          some (.node "marked" ⟨0, 3⟩ (some ⟨0⟩) [.node "mark" ⟨2, 3⟩ none []]),
          ⟨1, 0, 0, 0, 2, 1, 0⟩⟩) := by
    cbv
  have hspan := (hall.1 .first _ _ _ htaken).2 ⟨2, 3⟩ rfl
  have hleft := ((hall.1 .first _ _ _ htaken).1 _ (.inr rfl)).1
  exact ⟨⟨_, _, _, _, htaken, rfl, hspan, rfl, rfl, hleft⟩, _, _, hsucceeded, rfl, rfl,
    hall.2.1.1 _ _ hsucceeded rfl, (hall.2.2 _ hspan).1⟩

end Peg
