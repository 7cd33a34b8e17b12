import Peg.Proofs.Repair.Placement
import Peg.Proofs.Text.Offsets

/-!
# The gaps of what was recovered

What is recovered from a text that does not match lists its gaps.  The repairs of the
match that is reported come in the order of the text.  But the list holds every repair
that was made: also the repairs of a sequence that got further than its repairs and then
did not match, though the parse went back to before them.  The gaps are those of the
match exactly if there are none of that kind.

Main results:

- `Derives.ordered`: the repairs that are kept are in the order of the text.
- `recovered_gaps`: which gaps are listed.
- `recovered_gaps_misrepaired`: a list of gaps that is not in the order of the text.
-/

namespace Peg

open Text

/-! ## Written offsets -/

namespace Text

/-- Places further on are reported further on. -/
theorem Source.position_mono (source : Source) {a b : Nat} (h : a ≤ b) :
    (source.position a).offset ≤ (source.position b).offset := by
  have hmin : min a source.size ≤ min b source.size := by omega
  exact writtenOffset_mono source.segments hmin

end Text

/-! ## The order of repairs -/

/-- Offsets in ascending order between two others. -/
structure Ascends (start stop : Nat) (offsets : List Nat) : Prop where
  pairwise : offsets.Pairwise (· ≤ ·)
  start_le : ∀ offset ∈ offsets, start ≤ offset
  le_stop : ∀ offset ∈ offsets, offset ≤ stop

/-- Where there are no offsets, all of them ascend. -/
theorem ascends_nil (start stop : Nat) : Ascends start stop [] :=
  ⟨.nil, nofun, nofun⟩

/-- Offsets that ascend up to a place, and others from there on. -/
theorem Ascends.append {start middle stop : Nat} {offsets later : List Nat}
    (h : Ascends start middle offsets) (hlater : Ascends middle stop later)
    (hstart : start ≤ middle) (hstop : middle ≤ stop) :
    Ascends start stop (offsets ++ later) where
  pairwise := List.pairwise_append.2 ⟨h.pairwise, hlater.pairwise, fun offset hmem next hnext =>
    Nat.le_trans (h.le_stop offset hmem) (hlater.start_le next hnext)⟩
  start_le offset hmem := (List.mem_append.1 hmem).elim (h.start_le offset) fun hmem =>
    Nat.le_trans hstart (hlater.start_le offset hmem)
  le_stop offset hmem := (List.mem_append.1 hmem).elim
    (fun hmem => Nat.le_trans (h.le_stop offset hmem) hstop) (hlater.le_stop offset)

variable {V : Type}

/-- Where the repairs that were kept were made. -/
def keptOffsets (made : List StandIn) : List Nat :=
  (made.filter StandIn.kept).map StandIn.offset

@[simp] theorem keptOffsets_nil : keptOffsets [] = [] :=
  rfl

@[simp] theorem keptOffsets_append (made later : List StandIn) :
    keptOffsets (made ++ later) = keptOffsets made ++ keptOffsets later := by
  simp [keptOffsets]

/-- What a repair is made inside of has no say in whether it is kept. -/
@[simp] theorem keptOffsets_inside (surrounding : Surrounding) (made : List StandIn) :
    keptOffsets (made.map (.inside surrounding)) = keptOffsets made := by
  simp [keptOffsets, List.filter_map, Function.comp_def, StandIn.inside]

/-- Of repairs that are gone back on none is kept. -/
@[simp] theorem keptOffsets_drop (made : List StandIn) :
    keptOffsets (made.map .drop) = [] := by
  simp [keptOffsets, List.filter_map, Function.comp_def, StandIn.drop]

/-- In a lookahead none is kept. -/
@[simp] theorem keptOffsets_probed (made : List StandIn) :
    keptOffsets (made.map .probed) = [] := by
  simp [keptOffsets, List.filter_map, Function.comp_def, StandIn.probed, StandIn.drop]

/-- The repairs that are kept when a task does not match: none.  Repetitions do not
mismatch, and the repairs of a sequence are gone back on only when it is left. -/
def Task.KeepsNone (made : List StandIn) : Task V → Prop
  | .items .. => True
  | .many _ => False
  | .expr _ | .alternatives _ | .call _ => keptOffsets made = []

/-- What is known of the repairs that were kept, by the outcome. -/
structure Ordered (task : Task V) (m : Machine V) (made : List StandIn)
    (o : Verdict × Machine V) : Prop where
  matched : o.1 = .matched → Ascends m.offset o.2.offset (keptOffsets made)
  mismatched : o.1 = .mismatched → task.KeepsNone made

variable {env : Env V} {a : Nat} {task task' : Task V} {m n left : Machine V}
variable {o o' : Verdict × Machine V} {made later : List StandIn}

/-- A part of a task that settles it. -/
theorem Ordered.whole (h : Ordered task m made o) (hverdict : o'.1 = o.1)
    (hstart : n.offset = m.offset) (hstop : o.1 = .matched → o'.2.offset = o.2.offset)
    (hnone : task.KeepsNone made → task'.KeepsNone made) : Ordered task' n made o' where
  matched hmatched := by
    rw [hverdict] at hmatched
    rw [hstart, hstop hmatched]
    exact h.matched hmatched
  mismatched hmismatched := hnone (h.mismatched (hverdict ▸ hmismatched))

/-- A task without repairs of its own, which is done where it begins or further on. -/
theorem ordered_of_none (hnone : keptOffsets made = []) (htask : task.KeepsNone made) :
    Ordered task m made o :=
  ⟨fun _ => hnone ▸ ascends_nil _ _, fun _ => htask⟩

/-- What comes behind a stretch that matched. -/
theorem Ordered.after (hrest : Ordered task left later o)
    (h : Ascends m.offset left.offset (keptOffsets made)) (hle : m.offset ≤ left.offset)
    (hleft : o.1 = .matched → left.offset ≤ o.2.offset)
    (hnone : o.1 = .mismatched → task.KeepsNone later → task'.KeepsNone (made ++ later)) :
    Ordered task' m (made ++ later) o where
  matched hmatched := by
    rw [keptOffsets_append]
    exact h.append (hrest.matched hmatched) hle (hleft hmatched)
  mismatched hmismatched := hnone hmismatched (hrest.mismatched hmismatched)

/-- Going back changes nothing of it. -/
theorem Ordered.rewinding {e : Expr V} {eval : Eval V} (h : Ordered (.expr e) m made (eval m)) :
    Ordered (.expr e) m made (Eval.rewinding eval m) :=
  h.whole (Eval.fst_rewinding eval m) rfl
    (fun hmatched => by rw [Eval.rewinding_of_matched hmatched]) id

/-- What need not match is done where it begins if it does not match. -/
theorem ordered_attempt {e : Expr V}
    (h : Ordered (.expr e) { m with committed := false } made o) :
    Ordered task m (made.map (.inside (.attempt m.offset))) (Eval.accepted o) := by
  rcases o with ⟨_ | _ | _, last⟩
  · refine ⟨fun _ => ?_, nofun⟩
    rw [keptOffsets_inside]
    exact h.matched rfl
  · refine ⟨fun _ => ?_, nofun⟩
    have hnone : keptOffsets made = [] := h.mismatched rfl
    rw [keptOffsets_inside, hnone]
    exact ascends_nil _ _
  · exact ⟨nofun, nofun⟩

/-- A terminal makes at most one repair, where it is to be matched. -/
theorem Eval.ordered_terminal (e : Expr V) (m : Machine V) :
    Ordered (.expr e) m (standIns env e m) (terminal env e m) := by
  unfold terminal standIns
  cases hconsume : consume? e m.cursor with
  | some cursor => exact ordered_of_none rfl rfl
  | none =>
      unfold missing
      cases hpass : env.pass with
      | first => exact ordered_of_none rfl rfl
      | repair errorOffset =>
          dsimp only
          by_cases hstand : mayStandIn env errorOffset e m = true
          · by_cases hswitch : m.mayInsert = true
            · simp only [hstand, hswitch, Bool.and_self, if_true]
              refine ⟨fun _ => ?_, nofun⟩
              exact ⟨List.pairwise_singleton _ _, by simp [keptOffsets], by
                simp [keptOffsets, Machine.insert, Machine.offset]⟩
            · simp only [hstand, hswitch, Bool.and_false]
              exact ordered_of_none rfl rfl
          · simp only [hstand, Bool.false_and]
            exact ordered_of_none rfl rfl

/-- The repairs that are kept are in the order of the text. -/
theorem Derives.ordered (h : Derives env a task m o made) (hm : m.Valid env) :
    Ordered task m made o := by
  induction h with
  | terminal hterminal => exact (Eval.ordered_terminal _ _).rewinding
  | action => exact ordered_of_none rfl rfl
  | @seq a items m o made hitems ih =>
      refine Ordered.rewinding ⟨fun hmatched => ?_, fun hmismatched => ?_⟩
      · have hkept : o.1.settle made = made := by
          rw [show o.1 = .matched from hmatched]
          rfl
        rw [hkept]
        exact (ih hm).matched hmatched
      · rw [show o.1 = .mismatched from hmismatched]
        exact keptOffsets_drop made
  | done => exact ordered_of_none rfl trivial
  | @act_next a start inherited action items previous synthetic m left o made hact hrest ih =>
      have hframe : m.Frame env left := Eval.frame_runAction hm hact
      rcases Eval.exists_snd_runAction env action previous synthetic m
        with ⟨_, _, _, hleft⟩
      rw [hact] at hleft
      have hoffset : m.offset = left.offset := by rw [show left = _ from hleft]; rfl
      exact (ih hframe.valid).whole rfl hoffset (fun _ => rfl) id
  | act_last hends => exact ordered_of_none rfl trivial
  | @part_next a start inherited item items previous synthetic m left o made later hitem hpart
      hrest ihpart ihrest =>
      have hframe : Machine.Frame env { m with committed := inherited || start < m.offset } left :=
        hpart.framed ⟨hm.within, hm.vars⟩
      have hfirst := (ihpart ⟨hm.within, hm.vars⟩).matched rfl
      exact (ihrest hframe.valid).after hfirst hframe.offset_le (hrest.offset_le hframe.valid)
        fun _ _ => trivial
  | part_last hitem hpart hends ih =>
      exact (ih ⟨hm.within, hm.vars⟩).whole rfl rfl (fun _ => rfl) fun _ => trivial
  | choice_once honce hround ih =>
      refine Ordered.rewinding ?_
      exact (ih hm).whole rfl rfl (fun _ => rfl) id
  | choice_first htwo hround hends ih =>
      refine Ordered.rewinding ?_
      exact (ih ⟨hm.within, hm.vars⟩).whole rfl rfl (fun _ => rfl) id
  | @choice_second a items m left o made later htwo hround hnoted hagain ihround ihagain =>
      have hfirst : (Eval.openRound m).Frame env left := hround.framed ⟨hm.within, hm.vars⟩
      have hundo : m.Frame env (Eval.undoRound m left) := hfirst.undoRound htwo
      have hnone : keptOffsets made = [] := (ihround ⟨hm.within, hm.vars⟩).mismatched rfl
      refine Ordered.rewinding ?_
      refine (ihagain hundo.valid).after (hnone ▸ ascends_nil _ _) hundo.offset_le
        (hagain.offset_le hundo.valid) fun _ hlater => ?_
      have hlater : keptOffsets later = [] := hlater
      simp [Task.KeepsNone, hnone, hlater]
  | no_alternative => exact ordered_of_none rfl rfl
  | @alternative_next a item items m left o made later hmore hfirst hrest ihfirst ihrest =>
      have hframe : m.Frame env left := hfirst.framed hm
      have hback : m.Frame env left.backtrack := hframe.observe _ _
      have hnone : keptOffsets made = [] := (ihfirst hm).mismatched rfl
      refine (ihrest hback.valid).after (hnone ▸ ascends_nil _ _) hback.offset_le
        (hrest.offset_le hback.valid) fun _ hlater => ?_
      have hlater : keptOffsets later = [] := hlater
      simp [Task.KeepsNone, hnone, hlater]
  | alternative_last hends hfirst ih => exact (ih hm).whole rfl rfl (fun _ => rfl) id
  | star hmany ih =>
      refine Ordered.rewinding ?_
      exact (ih hm).whole rfl rfl (fun _ => rfl) False.elim
  | @many_next a body m left o made later hfirst hless hrest ihfirst ihrest =>
      have hframe : Machine.Frame env { m with committed := false } left :=
        hfirst.framed ⟨hm.within, hm.vars⟩
      refine (ihrest hframe.valid).after ?_ hframe.offset_le (hrest.offset_le hframe.valid)
        fun _ => False.elim
      rw [keptOffsets_inside]
      exact (ihfirst ⟨hm.within, hm.vars⟩).matched rfl
  | many_last hfirst hends ih => exact ordered_attempt (ih ⟨hm.within, hm.vars⟩)
  | @plus_next a body m left o made later hfirst hless hrest ihfirst ihrest =>
      have hframe : m.Frame env left := hfirst.framed hm
      have hall : Ordered (.many body) m (made ++ later) o :=
        (ihrest hframe.valid).after ((ihfirst hm).matched rfl) hframe.offset_le
          (hrest.offset_le hframe.valid) fun _ => False.elim
      refine Ordered.rewinding ?_
      exact hall.whole rfl rfl (fun _ => rfl) False.elim
  | plus_last hfirst hends ih =>
      refine Ordered.rewinding ?_
      exact (ih hm).whole rfl rfl (fun _ => rfl) id
  | @optional a body m o made hbody ih =>
      have hattempt : Ordered (.many body) m _ (Eval.accepted o) :=
        ordered_attempt (ih ⟨hm.within, hm.vars⟩)
      rw [Eval.optional_eq]
      refine Ordered.rewinding ?_
      exact hattempt.whole rfl rfl (fun _ => rfl) False.elim
  | notAhead hbody ih | ahead hbody ih =>
      exact ordered_of_none (keptOffsets_probed _) (keptOffsets_probed _)
  | @label a name body m o made hbody ih =>
      rcases Eval.exists_snd_labeled env name (fun _ => o) m with ⟨_, _, hleft⟩
      refine Ordered.rewinding ?_
      exact (ih ⟨hm.within, hm.vars⟩).whole (Eval.fst_labeled name _ m) rfl
        (fun _ => by rw [hleft]; rfl) id
  | rule hcall ih =>
      refine Ordered.rewinding ?_
      exact (ih hm).whole rfl rfl (fun _ => rfl) id
  | unknown | limit | hit => exact ordered_of_none rfl rfl
  | @body a id definition m o made hdefinition hknown hbody ih =>
      rcases Eval.exists_snd_body env id definition (Eval.memoKey? env id definition m)
        (fun _ => o) (Eval.countMiss env definition m) with ⟨_, _, _, _, hleft⟩
      rw [Eval.countMiss_eq] at ih
      exact (ih ⟨hm.within, m.vars.valid_enter⟩).whole (Eval.fst_body _ _ _ _ _) rfl
        (fun _ => by rw [hleft]; rfl) fun hnone => hnone

/-! ## Recovered texts -/

/-- The gaps are those of the match exactly if no repair was gone back on. -/
theorem map_gap_eq_kept_iff (made : List StandIn) :
    made.map StandIn.gap = (made.filter StandIn.kept).map StandIn.gap ↔
      ∀ standIn ∈ made, standIn.kept = true := by
  constructor
  · intro h
    have hlength : made.length = (made.filter StandIn.kept).length := by
      simpa using congrArg List.length h
    rw [← List.filter_eq_self]
    exact List.filter_sublist.eq_of_length hlength.symm
  · intro h
    rw [List.filter_eq_self.2 h]

/-- What is recovered lists the repairs of a repairing pass from the place of the failure.
Those that are kept are in the order of the written text, and they are all that is listed
exactly if no repair was gone back on. -/
theorem recovered_gaps {grammar : Grammar V} {settings : Settings} {source : Source}
    {root : RuleId} {failure : Failure V} {recovered : Recovered V}
    (hfailed : (execute grammar settings source root).result = .ok (.failed failure))
    (hrecovered : failure.recovered? = some recovered) :
    ∃ errorOffset made,
      failure.position = source.position errorOffset ∧
      PassMakes ⟨grammar, source, settings, .repair errorOffset⟩ root made ∧
      recovered.gaps = made.map StandIn.gap ∧
      ((made.filter StandIn.kept).map fun standIn => standIn.gap.position.offset).Pairwise
        (· ≤ ·) ∧
      (recovered.gaps = (made.filter StandIn.kept).map StandIn.gap ↔
        ∀ standIn ∈ made, standIn.kept = true) := by
  rcases exists_of_failed hfailed with ⟨-, errorOffset, -, hposition, hrecovered'⟩
  rw [hrecovered] at hrecovered'
  split at hrecovered'
  next hrecovery =>
      rcases exists_passMakes ⟨grammar, source, settings, .repair errorOffset⟩ root
        with ⟨made, hmade⟩
      have hgaps := hmade.gaps_eq
      have hordered := hmade.ordered (valid_passStart _)
      have hplaced := hmade.placed rfl (valid_passStart _) trivial
      generalize runPass ⟨grammar, source, settings, .repair errorOffset⟩ root = o
        at hgaps hordered hrecovered'
      rcases o with ⟨_ | _ | _, left⟩
      · have heq : recovered.gaps = made.map StandIn.gap := by
          rw [Option.some_inj.1 hrecovered']
          exact hgaps
        refine ⟨errorOffset, made, hposition, hmade, heq, ?_, heq ▸ map_gap_eq_kept_iff made⟩
        have hascends := (hordered.matched rfl).pairwise
        rw [keptOffsets, List.pairwise_map] at hascends
        rw [List.pairwise_map]
        refine hascends.imp_of_mem fun {first second} hfirst hsecond hle => ?_
        rw [(hplaced first (List.mem_of_mem_filter hfirst)).placed.position_eq,
          (hplaced second (List.mem_of_mem_filter hsecond)).placed.position_eq]
        exact Source.position_mono source hle
      · cases hrecovered'
      · cases hrecovered'
  next => cases hrecovered'

/-- An item that is missing between two commas is stood in for once. -/
theorem recovered_gaps_bracketed :
    ∃ failure recovered errorOffset, ∃ made : List StandIn,
      (execute bracketed { recovery := true } (.plain ['[', 'a', ',', ',', 'a', ']']) ⟨0⟩).result =
        .ok (.failed failure) ∧
      failure.recovered? = some recovered ∧
      failure.position = (Source.plain ['[', 'a', ',', ',', 'a', ']']).position errorOffset ∧
      recovered.gaps = [⟨⟨3, 0, 3⟩, "'a'"⟩] ∧
      recovered.gaps = made.map StandIn.gap ∧
      ((made.filter StandIn.kept).map fun standIn => standIn.gap.position.offset).Pairwise
        (· ≤ ·) := by
  have hfailed :
      (execute bracketed { recovery := true } (.plain ['[', 'a', ',', ',', 'a', ']']) ⟨0⟩).result =
        .ok (.failed ⟨⟨3, 0, 3⟩, ["'a'"], some ',',
          some ⟨⟨6, 0, 6⟩, true, [], [⟨⟨3, 0, 3⟩, "'a'"⟩], none⟩, ⟨2, 0, 0, 0, 0, 1, 1⟩⟩) := by
    cbv
  rcases recovered_gaps hfailed rfl with ⟨errorOffset, made, hposition, -, hgaps, hsorted, -⟩
  exact ⟨_, _, errorOffset, made, hfailed, rfl, hposition, rfl, hgaps, hsorted⟩

/-- A grammar in which a longer repair may be tried in vain before a shorter one. -/
def misrepaired : Grammar Nat where
  rules := #[
    ⟨"start", .seq [.char 'x',
      .choice [.seq [.char 'b', .char 'c', .char 'e', .endOfInput],
        .seq [.char 'q', .char 'c', .char 'z']]], {}⟩]

/-- The repairs of an alternative that did not match are listed in front of the one repair
of the match, which is nearer to the start of the text than the last of them. -/
theorem recovered_gaps_misrepaired :
    (∃ draft : Draft Nat, draft.build = .ok misrepaired) ∧
      ∃ failure recovered,
        (execute misrepaired { recovery := true } (.plain ['x', 'c', 'z']) ⟨0⟩).result =
          .ok (.failed failure) ∧
        failure.recovered? = some recovered ∧
        recovered.gaps.map (·.expected) = ["'b'", "'e'", "'q'"] ∧
        ¬ (recovered.gaps.map (·.position.offset)).Pairwise (· ≤ ·) := by
  refine ⟨?_, ?_⟩
  · exact ⟨(Draft.empty.rule "start" (.seq [.char 'x',
      .choice [.seq [.char 'b', .char 'c', .char 'e', .endOfInput],
        .seq [.char 'q', .char 'c', .char 'z']]])).2, by cbv⟩
  · have hfailed :
        (execute misrepaired { recovery := true } (.plain ['x', 'c', 'z']) ⟨0⟩).result =
          .ok (.failed ⟨⟨1, 0, 1⟩, ["'b'", "'q'"], some 'c',
            some ⟨⟨3, 0, 3⟩, true, [],
              [⟨⟨1, 0, 1⟩, "'b'"⟩, ⟨⟨2, 0, 2⟩, "'e'"⟩, ⟨⟨1, 0, 1⟩, "'q'"⟩], none⟩,
            ⟨2, 3, 0, 0, 0, 1, 3⟩⟩) := by
      cbv
    exact ⟨_, _, hfailed, rfl, rfl, by decide⟩

end Peg
