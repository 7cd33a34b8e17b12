import Peg.Grammar.Draft
import Peg.Proofs.Parse.FirstPass
import Peg.Proofs.Repair.Gaps
import Peg.Proofs.Repair.Reached

/-!
# What an action is told of the match in front of it

An action in a sequence sees what the nearest element in front of it has matched, and whether
that element was stood in for.  The mark is set if the match is empty and a terminal was stood
in for while the element was tried.  So it is set where a stand-in lies on the match, but also
where all stand-ins were made in an attempt that did not match and was gone back on.

Main results:

- `Reached.standing`: where an evaluation stands in a sequence, and what it carries along.
- `Derives.inserted_lt_iff`: repairs are counted up exactly if some were made.
- `Reached.seen_by_action`: what an action is told, and when that is what it should be told.
- `Reached.seen_by_action_abandoned`: an action that is told otherwise.
-/

namespace Peg

open Text Eval

variable {V : Type}

/-! ## Where a sequence stands -/

/-- From one machine to another a sequence runs actions, all on the same match. -/
inductive Acts (env : Env V) (previous : Span) (synthetic : Bool) (n : Machine V) :
    List (Expr V) → Machine V → Prop
  | none : Acts env previous synthetic n [] n
  | next {actions : List (Expr V)} {action : Action V} {m left : Machine V}
      (h : Acts env previous synthetic n actions m)
      (hact : runAction env action previous synthetic m = (.matched, left)) :
      Acts env previous synthetic n (actions ++ [.action action]) left

variable (env : Env V) (root : RuleId) (a start : Nat) (inherited : Bool)
variable (parts : List (Expr V)) (previous : Span) (synthetic : Bool) (m n left : Machine V)

/-- A sequence that began at a machine has run nothing but actions so far. -/
structure Opens : Prop where
  start_eq : n.offset = start
  inherited_eq : n.committed = inherited
  reached : ∃ actions, Reached env root a (.expr (.seq (actions ++ parts))) n ∧
    Acts env previous synthetic n actions m

/-- The element of a sequence that was matched last, from one machine to another, has nothing
but actions behind it so far. -/
structure Follows (item : Expr V) : Prop where
  isAction_eq : item.isAction = false
  run_eq : (Task.expr item).run env a { n with committed := inherited || start < n.offset } =
    (.matched, left)
  reached : ∃ actions before was,
    Reached env root a (.items start inherited (item :: (actions ++ parts)) before was) n ∧
      Acts env previous synthetic left actions m

variable {env root a start inherited parts previous synthetic m n left}
variable {action : Action V} {item : Expr V} {last : Machine V}

theorem Opens.act
    (h : Opens env root a start inherited (.action action :: parts) previous synthetic m n)
    (hact : runAction env action previous synthetic m = (.matched, last)) :
    Opens env root a start inherited parts previous synthetic last n := by
  rcases h.reached with ⟨actions, hreached, hacts⟩
  refine ⟨h.start_eq, h.inherited_eq, actions ++ [.action action], ?_, hacts.next hact⟩
  rwa [List.append_assoc]

theorem Follows.act
    (h : Follows env root a start inherited (.action action :: parts) previous synthetic m n left
      item)
    (hact : runAction env action previous synthetic m = (.matched, last)) :
    Follows env root a start inherited parts previous synthetic last n left item := by
  rcases h.reached with ⟨actions, before, was, hreached, hacts⟩
  refine ⟨h.isAction_eq, h.run_eq, actions ++ [.action action], before, was, ?_, hacts.next hact⟩
  rwa [List.append_assoc]

/-- Where an evaluation stands in a sequence: in front of all elements, with no match yet, or
behind one, with the match of that element. -/
theorem Reached.standing
    (h : Reached env root a (.items start inherited parts previous synthetic) m) :
    (∃ n, Opens env root a start inherited parts previous synthetic m n ∧
      previous = Span.emptyAt start ∧ synthetic = false) ∨
    ∃ item n left, Follows env root a start inherited parts previous synthetic m n left item ∧
      previous = ⟨n.offset, left.offset⟩ ∧
      synthetic = (Span.isEmpty ⟨n.offset, left.offset⟩ && n.inserted < left.inserted) := by
  generalize htask : Task.items start inherited parts previous synthetic = task at h
  induction h generalizing parts previous synthetic with
  | start => cases htask
  | @part a a' task task' m m' h hbegins ih =>
      subst htask
      cases hbegins with
      | seq => exact .inl ⟨m, ⟨rfl, rfl, [], h, .none⟩, rfl, rfl⟩
      | act_next hact =>
          rcases ih rfl with ⟨n, hopens, hseen⟩ | ⟨item, n, left, hfollows, hseen⟩
          · exact .inl ⟨n, hopens.act hact, hseen⟩
          · exact .inr ⟨item, n, left, hfollows.act hact, hseen⟩
      | @part_next _ _ _ item _ before was _ _ hitem hpart =>
          exact .inr ⟨item, m, m', ⟨hitem, hpart, [], before, was, h, .none⟩, rfl, rfl⟩

/-! ## Repairs of an element -/

variable {task : Task V} {o : Verdict × Machine V} {made : List StandIn}

/-- Repairs are counted up exactly if some were made. -/
theorem Derives.inserted_lt_iff (h : Derives env a task m o made) :
    m.inserted < o.2.inserted ↔ made ≠ [] := by
  have hlength : o.2.inserted = made.length + m.inserted := by
    rw [Machine.inserted, h.gaps_eq, List.length_append, List.length_reverse, List.length_map]
    rfl
  rw [hlength, ← List.length_pos_iff]
  omega

/-- The mark that an element leaves behind: its match is empty, and repairs were made. -/
theorem Derives.synthetic_iff (h : Derives env a task m o made) :
    (Span.isEmpty ⟨n.offset, o.2.offset⟩ && m.inserted < o.2.inserted) = true ↔
      o.2.offset = n.offset ∧ made ≠ [] := by
  rw [Bool.and_eq_true, decide_eq_true_iff, h.inserted_lt_iff, Span.isEmpty, beq_iff_eq,
    eq_comm]

/-- All repairs of an expression that does not match are gone back on. -/
theorem Derives.kept_eq_false (h : Derives env a (.expr item) m o made) (hm : m.Valid env)
    (hmismatched : o.1 = .mismatched) : ∀ standIn ∈ made, standIn.kept = false := by
  have hnone : keptOffsets made = [] := (h.ordered hm).mismatched hmismatched
  rw [keptOffsets, List.map_eq_nil_iff, List.filter_eq_nil_iff] at hnone
  exact fun standIn hmem => Bool.eq_false_iff.2 (hnone standIn hmem)

/-- So they are if an option is taken to match nothing. -/
theorem Derives.kept_optional_eq_false {body : Expr V}
    (h : Derives env a (.expr (.optional body)) m o made) (hm : m.Valid env)
    (hmismatched : ((Task.expr body).run env a { m with committed := false }).1 = .mismatched) :
    ∀ standIn ∈ made, standIn.kept = false := by
  cases h with
  | terminal hterminal => cases hterminal
  | optional hbody =>
      rw [hbody.run_eq] at hmismatched
      exact List.forall_mem_map.2 (hbody.kept_eq_false ⟨hm.within, hm.vars⟩ hmismatched)

/-- A mark is as it should be exactly if an empty match with repairs has one that was kept. -/
theorem mark_iff_kept_iff {empty marked : Prop} (h : marked ↔ empty ∧ made ≠ []) :
    (marked ↔ empty ∧ ∃ standIn ∈ made, standIn.kept = true) ↔
      (empty → made ≠ [] → ∃ standIn ∈ made, standIn.kept = true) := by
  have hsome : (∃ standIn ∈ made, standIn.kept = true) → made ≠ [] := by
    rintro ⟨standIn, hmem, -⟩
    exact List.ne_nil_of_mem hmem
  rw [h]
  constructor
  · intro hmark hempty hmade
    exact (hmark.1 ⟨hempty, hmade⟩).2
  · intro hkept
    exact ⟨fun hmade => ⟨hmade.1, hkept hmade.1 hmade.2⟩, fun hmark => ⟨hmark.1, hsome hmark.2⟩⟩

/-! ## What an action is told -/

/-- What an action in a sequence is told.  In front of all elements it sees an empty match at
the start, without a mark.  Behind an element it sees what that element has matched, and the
match is marked exactly if it is empty and repairs were made while the element was tried; a
marked match is read as the default, and any other as the text that was matched.  That is the
mark of an element that was stood in for, with a repair that was kept, unless the match is
empty and all repairs that were made have been gone back on. -/
theorem Reached.seen_by_action
    (h : Reached env root a (.items start inherited (.action action :: parts) previous synthetic)
      m) :
    (∃ n, Opens env root a start inherited (.action action :: parts) previous synthetic m n ∧
      previous = Span.emptyAt start ∧ synthetic = false ∧
      ∀ default, MatchView.matchedOr ⟨env.source.text, previous, synthetic, env.pass.isRepair⟩
        default = previous.slice env.source.text) ∨
    ∃ item n left,
      Follows env root a start inherited (.action action :: parts) previous synthetic m n left
        item ∧
      previous = ⟨n.offset, left.offset⟩ ∧
      (∃ made, Derives env a (.expr item) { n with committed := inherited || start < n.offset }
        (.matched, left) made) ∧
      ∀ made, Derives env a (.expr item) { n with committed := inherited || start < n.offset }
          (.matched, left) made →
        (synthetic = true ↔ left.offset = n.offset ∧ made ≠ []) ∧
        ((synthetic = true ↔ left.offset = n.offset ∧ ∃ standIn ∈ made, standIn.kept = true) ↔
          (left.offset = n.offset → made ≠ [] → ∃ standIn ∈ made, standIn.kept = true)) ∧
        ∀ default, MatchView.matchedOr ⟨env.source.text, previous, synthetic, env.pass.isRepair⟩
          default =
            if left.offset = n.offset ∧ made ≠ [] then default
            else previous.slice env.source.text := by
  rcases h.standing with ⟨n, hopens, hprevious, hnone⟩ |
    ⟨item, n, left, hfollows, hprevious, hmark⟩
  · exact .inl ⟨n, hopens, hprevious, hnone, fun default =>
      MatchView.matchedOr_of_not_synthetic hnone default⟩
  · refine .inr ⟨item, n, left, hfollows, hprevious, ?_, fun made hmade => ?_⟩
    · rcases exists_derives env a (.expr item)
        { n with committed := inherited || start < n.offset } with ⟨made, hmade⟩
      exact ⟨made, hfollows.run_eq ▸ hmade⟩
    · have hiff : synthetic = true ↔ left.offset = n.offset ∧ made ≠ [] := by
        rw [hmark]
        exact hmade.synthetic_iff
      exact ⟨hiff, mark_iff_kept_iff hiff, fun default => if_congr hiff rfl rfl⟩

/-- An action that reads a number, which is `0` if it is missing. -/
def readNumber : Action Nat := fun view => do
  Program.push (view.matchedOr ['0']).length
  return true

/-- A grammar of numbers behind an equality sign. -/
def assigned : Grammar Nat where
  rules := #[
    ⟨"assigned", .seq [.char '=', .rule ⟨1⟩, .action readNumber], {}⟩,
    ⟨"number", .plus (.range '0' '9'), {}⟩]

/-- A repairing pass over a text in which the number is missing. -/
def assignedRepair : Env Nat :=
  ⟨assigned, .plain ['='], { recovery := true }, .repair 1⟩

theorem Reached.seen_by_action_assigned :
    ∃ m item n left made,
      Reached assignedRepair ⟨0⟩ 255 (.items 0 false [.action readNumber] ⟨1, 1⟩ true) m ∧
      Follows assignedRepair ⟨0⟩ 255 0 false [.action readNumber] ⟨1, 1⟩ true m n left item ∧
      Derives assignedRepair 255 (.expr item) { n with committed := false || 0 < n.offset }
        (.matched, left) made ∧
      left.offset = n.offset ∧ made ≠ [] ∧
      MatchView.matchedOr ⟨['='], ⟨1, 1⟩, true, true⟩ ['0'] = ['0'] := by
  have hbody : Reached assignedRepair ⟨0⟩ 255 _ _ := .part (.part .start (.body rfl rfl)) .seq
  have hnumber := (hbody.part (.part_next rfl rfl)).part (.part_next rfl (Prod.ext (by cbv) rfl))
  have hreached : Reached assignedRepair ⟨0⟩ 255 (.items 0 false [.action readNumber] ⟨1, 1⟩ true)
      _ := hnumber
  rcases hreached.seen_by_action with ⟨_, -, -, hmark, -⟩ |
    ⟨item, n, left, hfollows, -, ⟨made, hmade⟩, hall⟩
  · cases hmark
  · have hseen := hall made hmade
    have hempty := hseen.1.1 rfl
    exact ⟨_, item, n, left, made, hreached, hfollows, hmade, hempty.1, hempty.2,
      (hseen.2.2 ['0']).trans (if_pos hempty)⟩

/-- An optional pair at the end of the text. -/
def finalPair : Expr Nat :=
  .optional (.seq [.char 'a', .char 'b', .endOfInput])

/-- Such a pair, or none, in front of something else. -/
def abandonedParts : List (Expr Nat) :=
  [finalPair, .action readNumber, .char 'a', .char 'q']

/-- A grammar in which a pair may be repaired in vain. -/
def abandoned : Grammar Nat where
  rules := #[⟨"abandoned", .seq abandonedParts, {}⟩]

/-- A repairing pass over a text that has no pair. -/
def abandonedRepair : Env Nat :=
  ⟨abandoned, .plain ['a', 'c'], { recovery := true }, .repair 1⟩

/-- The machine in front of the pair. -/
def abandonedStart : Machine Nat :=
  enterRule ⟨0⟩ ⟨"abandoned", .seq abandonedParts, {}⟩ (passStart abandonedRepair)

/-- The machine behind it. -/
def abandonedLeft : Machine Nat :=
  ((Task.expr finalPair).run abandonedRepair 255
    { abandonedStart with committed := false || 0 < abandonedStart.offset }).2

/-- The pair matches nothing, and its letters do not match though one is repaired. -/
theorem run_finalPair :
    (Task.expr finalPair).run abandonedRepair 255
        { abandonedStart with committed := false || 0 < abandonedStart.offset } =
      (.matched, abandonedLeft) ∧
    (⟨abandonedStart.offset, abandonedLeft.offset⟩ : Span) = ⟨0, 0⟩ ∧
    (Span.isEmpty ⟨0, 0⟩ && abandonedStart.inserted < abandonedLeft.inserted) = true ∧
    ((Task.expr (.seq [.char 'a', .char 'b', .endOfInput])).run abandonedRepair 255
        { abandonedStart with committed := false }).1 = .mismatched :=
  ⟨Prod.ext (by cbv) rfl, by cbv, by cbv, by cbv⟩

/-- The pair is repaired, and then gone back on since the text does not end there.  What is
left is an empty match without a repair, yet it is marked, and the action reads the default. -/
theorem Reached.seen_by_action_abandoned :
    (∃ draft : Draft Nat, draft.build = .ok abandoned) ∧
    (∃ failure recovered,
      (execute abandoned { recovery := true } (.plain ['a', 'c']) ⟨0⟩).result =
        .ok (.failed failure) ∧
      failure.position.offset = 1 ∧ failure.recovered? = some recovered ∧
      recovered.values = [1]) ∧
    ∃ m n left made,
      Reached abandonedRepair ⟨0⟩ 255
        (.items 0 false [.action readNumber, .char 'a', .char 'q'] ⟨0, 0⟩ true) m ∧
      Follows abandonedRepair ⟨0⟩ 255 0 false [.action readNumber, .char 'a', .char 'q'] ⟨0, 0⟩
        true m n left finalPair ∧
      Derives abandonedRepair 255 (.expr finalPair)
        { n with committed := false || 0 < n.offset } (.matched, left) made ∧
      left.offset = n.offset ∧ (∀ standIn ∈ made, standIn.kept = false) ∧
      ¬ (true = true ↔ left.offset = n.offset ∧ ∃ standIn ∈ made, standIn.kept = true) := by
  refine ⟨?_, ?_, ?_⟩
  · exact ⟨(Draft.empty.rule "abandoned" (.seq abandonedParts)).2, by cbv⟩
  · have hfailed :
        (execute abandoned { recovery := true } (.plain ['a', 'c']) ⟨0⟩).result =
          .ok (.failed ⟨⟨1, 0, 1⟩, ["'b'", "'q'"], some 'c',
            some ⟨⟨1, 0, 1⟩, false, [1], [⟨⟨1, 0, 1⟩, "'b'"⟩, ⟨⟨1, 0, 1⟩, "'q'"⟩], none⟩,
            ⟨2, 0, 0, 0, 2, 1, 2⟩⟩) := by
      cbv
    exact ⟨_, _, hfailed, rfl, rfl, rfl⟩
  · have hbody : Reached abandonedRepair ⟨0⟩ 255 (.items 0 false abandonedParts ⟨0, 0⟩ false)
        abandonedStart := .part (.part .start (.body rfl rfl)) .seq
    have hvalid : abandonedStart.Valid abandonedRepair := hbody.valid
    rcases run_finalPair with ⟨hrun, hspan, hmark, hmismatched⟩
    have hreached := hbody.part (.part_next rfl hrun)
    rw [hspan, hmark] at hreached
    rcases exists_derives abandonedRepair 255 (.expr finalPair)
      { abandonedStart with committed := false || 0 < abandonedStart.offset } with ⟨made, hmade⟩
    have hnone := hmade.kept_optional_eq_false ⟨hvalid.within, hvalid.vars⟩ hmismatched
    refine ⟨_, _, _, made, hreached, ⟨rfl, hrun, [], _, _, hbody, .none⟩, hrun ▸ hmade,
      congrArg Span.stop hspan, hnone, ?_⟩
    intro hmarked
    rcases (hmarked.1 rfl).2 with ⟨standIn, hmem, hkept⟩
    exact Bool.false_ne_true ((hnone standIn hmem).symm.trans hkept)

end Peg
