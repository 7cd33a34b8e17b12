import Mathlib
import Peg.Proofs.Repair.Gaps
import Peg.Proofs.Report.Misses
import Peg.Proofs.Text.Written

/-!
# The places that a parse reports

Every place that a parse reports is one of the written text, also where patterns see
indentation markers in it.  The frontier is always at a character boundary, and nothing has
moved it away from the start without being noted there; a rule that does not match is noted
itself.  So a failed parse has something to report, at a place that exists.

Main results:

- `Frontier.InText`: a frontier at a place of the text, with what was tried there.
- `Derives.frontier_inText`: every evaluation leaves such a frontier behind.
- `Derives.tried_ne_nil`: a rule that does not match has something noted.
- `places_of_result`: where a parse says that it ended, failed and was repaired.
-/

namespace Peg

open Text Eval

variable {V : Type}

/-! ## Frontiers -/

/-- A frontier at a character boundary of a text, and something was tried there unless it is
the start. -/
structure Frontier.InText (text : List Char) (frontier : Frontier V) : Prop where
  boundary : Boundary text frontier.position
  tried_ne_nil : 0 < frontier.position → frontier.tried ≠ []

namespace Frontier

variable {text : List Char} {frontier : Frontier V} {offset : Nat}

/-- Nothing was tried anywhere outside of the text. -/
theorem inText_empty (text : List Char) : InText text (empty : Frontier V) :=
  ⟨boundary_zero text, fun hpos => absurd hpos (Nat.lt_irrefl 0)⟩

/-- Wherever something fails, something was tried at the frontier. -/
theorem InText.tried_record_ne_nil (h : frontier.InText text) (offset : Nat)
    (expected : Expected V) : (frontier.record offset expected).tried ≠ [] := by
  unfold record
  split
  next => exact List.cons_ne_nil _ _
  next hle =>
      split
      next => exact List.cons_ne_nil _ _
      next hne => exact h.tried_ne_nil (by omega)

/-- A failure at a place in the text keeps the frontier in it. -/
theorem InText.record (h : frontier.InText text) (hoffset : Boundary text offset)
    (expected : Expected V) : (frontier.record offset expected).InText text := by
  refine ⟨?_, fun _ => h.tried_record_ne_nil offset expected⟩
  unfold Frontier.record
  split
  next => exact hoffset
  next =>
      split
      next => exact hoffset
      next => exact h.boundary

/-- Wherever a rule or label fails, something was tried at the frontier. -/
theorem InText.tried_recordNamed_ne_nil (h : frontier.InText text) (start : Nat)
    (before : Frontier V) (expected : Expected V) :
    (frontier.recordNamed start before expected).tried ≠ [] := by
  unfold recordNamed
  split
  next hlt => exact h.tried_ne_nil (Nat.lt_of_le_of_lt (Nat.zero_le start) hlt)
  next => exact List.cons_ne_nil _ _

/-- So does a rule or label that failed where it started, if that is in the text. -/
theorem InText.recordNamed (h : frontier.InText text) (hoffset : Boundary text offset)
    (before : Frontier V) (expected : Expected V) :
    (frontier.recordNamed offset before expected).InText text := by
  refine ⟨?_, fun _ => h.tried_recordNamed_ne_nil offset before expected⟩
  unfold Frontier.recordNamed
  split
  next => exact h.boundary
  next => exact hoffset

/-- Names are deduplicated by removing the later mentions of each. -/
theorem nodup_eraseDups (names : List String) : names.eraseDups.Nodup := by
  induction hlength : names.length using Nat.strongRecOn generalizing names with
  | _ length ih =>
      cases names with
      | nil => exact List.nodup_nil
      | cons name names =>
          have hless : (names.filter fun other => !other == name).length < length := by
            rw [← hlength]
            exact Nat.lt_succ_of_le (List.length_filter_le _ _)
          rw [List.eraseDups_cons, List.nodup_cons]
          exact ⟨by simp, ih _ hless _ rfl⟩

/-- Each name is expected once. -/
theorem nodup_labels (grammar : Grammar V) (frontier : Frontier V) :
    (frontier.labels grammar).Nodup :=
  nodup_eraseDups _

/-- Something is expected if something was tried. -/
theorem labels_ne_nil (grammar : Grammar V) (h : frontier.tried ≠ []) :
    frontier.labels grammar ≠ [] := by
  rcases List.exists_mem_of_ne_nil _ h with ⟨expected, hmem⟩
  exact List.ne_nil_of_mem (mem_labels_iff.2 ⟨expected, hmem, rfl⟩)

end Frontier

variable {env : Env V} {a : Nat} {task : Task V} {m left : Machine V} {o : Verdict × Machine V}
variable {made : List StandIn}

namespace Machine

/-- Failures are recorded at the head, which is within the text. -/
theorem inText_recordFailure (h : m.frontier.InText env.source.text) (hm : m.Valid env)
    (expected : Expected V) :
    (m.recordFailure env m.offset expected).frontier.InText env.source.text := by
  unfold recordFailure
  split
  next => exact h.record hm.within.boundary expected
  next => exact h

/-- Rules and labels are recorded where they started, which is within the text. -/
theorem inText_recordNamed (h : left.frontier.InText env.source.text) (hm : m.Valid env)
    (expected : Expected V) :
    (left.recordNamed env m.offset m.frontier expected).frontier.InText env.source.text := by
  unfold recordNamed
  split
  next => exact h.recordNamed hm.within.boundary m.frontier expected
  next => exact h

/-- Only the frontier and the open lookaheads matter for what is noted. -/
theorem frontier_recordNamed_congr {n : Machine V} {start : Nat} {before : Frontier V}
    {expected : Expected V} (hfrontier : m.frontier = n.frontier) (hprobes : m.probes = n.probes) :
    (m.recordNamed env start before expected).frontier =
      (n.recordNamed env start before expected).frontier := by
  unfold recordNamed recording
  rw [hprobes]
  split
  next => exact congrArg (Frontier.recordNamed · start before expected) hfrontier
  next => exact hfrontier

end Machine

namespace Eval

/-- A terminal fails only within the text. -/
theorem inText_terminal (e : Expr V) (h : m.frontier.InText env.source.text)
    (hm : m.Valid env) : (terminal env e m).2.frontier.InText env.source.text := by
  unfold terminal
  split
  next => exact h
  next =>
      unfold missing
      split
      next => exact Machine.inText_recordFailure h hm (.terminal e)
      next errorOffset hpass =>
          split
          next =>
              split
              next => exact h
              next => exact h
          next => exact h

/-- A rule or label is noted as failed only within the text. -/
theorem inText_noteFailure (h : left.frontier.InText env.source.text) (hm : m.Valid env)
    (expected : Expected V) :
    (noteFailure env m left expected).frontier.InText env.source.text := by
  have hleft : ({ left with nodes := m.nodes } : Machine V).frontier.InText env.source.text := h
  exact Machine.inText_recordNamed hleft hm expected

/-- A label keeps the frontier in the text if what it stands around does. -/
theorem inText_labeled {name : String} (h : o.2.frontier.InText env.source.text)
    (hm : m.Valid env) :
    (labeled env name (fun _ => o) m).2.frontier.InText env.source.text := by
  rw [labeled_eq]
  rcases o with ⟨_ | _ | error, inside⟩
  · exact h
  · have hclosed : (closeLabel inside).frontier.InText env.source.text := h
    exact inText_noteFailure hclosed hm (.label name)
  · exact h

/-- A known mismatch is noted where it is looked up. -/
theorem frontier_knownMismatch (env : Env V) (id : RuleId) (wouldInsert : Bool) (m : Machine V) :
    (knownMismatch env id wouldInsert m).frontier = (noteFailure env m m (.rule id)).frontier :=
  Machine.frontier_recordNamed_congr rfl rfl

@[simp] theorem frontier_remember (env : Env V) (key? : Option MemoKey) (wouldInsert : Bool)
    (m left : Machine V) : (remember env key? wouldInsert m left).frontier = left.frontier := by
  rw [Machine.remember_eq]

@[simp] theorem probes_remember (env : Env V) (key? : Option MemoKey) (wouldInsert : Bool)
    (m left : Machine V) : (remember env key? wouldInsert m left).probes = left.probes := by
  rw [Machine.remember_eq]

/-- A body that does not match is noted where the rule was invoked. -/
theorem frontier_body_mismatched (env : Env V) (id : RuleId) (definition : Rule V)
    (key? : Option MemoKey) (m inside : Machine V) :
    (body env id definition key? (fun _ => (.mismatched, inside)) m).2.frontier =
      (noteFailure env m (leaveRule definition m inside) (.rule id)).frontier := by
  unfold body
  exact Machine.frontier_recordNamed_congr (frontier_remember ..) (probes_remember ..)

/-- A rule keeps the frontier in the text if its body does. -/
theorem inText_body {id : RuleId} {definition : Rule V} {key? : Option MemoKey}
    (h : o.2.frontier.InText env.source.text) (hm : m.Valid env) :
    (body env id definition key? (fun _ => o) m).2.frontier.InText env.source.text := by
  rcases o with ⟨_ | _ | error, inside⟩
  · unfold body
    dsimp only
    rw [contribute_eq]
    exact h
  · have hleft : (leaveRule definition m inside).frontier.InText env.source.text := h
    rw [frontier_body_mismatched]
    exact inText_noteFailure hleft hm (.rule id)
  · exact h

end Eval

/-- Every evaluation leaves a frontier in the text behind, with something tried there. -/
theorem Derives.frontier_inText (h : Derives env a task m o made) (hm : m.Valid env)
    (hstart : m.frontier.InText env.source.text) : o.2.frontier.InText env.source.text := by
  induction h with
  | terminal hterminal =>
      rw [frontier_rewinding]
      exact inText_terminal _ hstart hm
  | action =>
      rw [frontier_rewinding, frontier_runAction]
      exact hstart
  | seq hitems ih | choice_once honce hitems ih | star hmany ih | plus_last hfirst hends ih
  | rule hcall ih =>
      rw [frontier_rewinding]
      exact ih hm hstart
  | done | no_alternative | unknown | limit => exact hstart
  | @act_next a start inherited action items previous synthetic m left o made hact hrest ih =>
      have hfrontier : (runAction env action previous synthetic m).2.frontier = m.frontier :=
        frontier_runAction action previous synthetic m
      rw [hact] at hfrontier
      exact ih (frame_runAction hm hact).valid (hfrontier.symm ▸ hstart)
  | act_last hends =>
      rw [frontier_runAction]
      exact hstart
  | @part_next a start inherited item items previous synthetic m left o made later hitem hpart
      hrest ihpart ihrest =>
      have hframe : Machine.Frame env { m with committed := inherited || start < m.offset } left :=
        hpart.framed ⟨hm.within, hm.vars⟩
      exact ihrest hframe.valid (ihpart ⟨hm.within, hm.vars⟩ hstart)
  | part_last hitem hpart hends ih => exact ih ⟨hm.within, hm.vars⟩ hstart
  | choice_first htwo hround hends ih =>
      rw [frontier_rewinding]
      exact ih ⟨hm.within, hm.vars⟩ hstart
  | @choice_second a items m left o made later htwo hround hnoted hagain ihround ihagain =>
      have hfirst : (openRound m).Frame env left := hround.framed ⟨hm.within, hm.vars⟩
      rw [frontier_rewinding]
      exact ihagain (hfirst.undoRound htwo).valid (ihround ⟨hm.within, hm.vars⟩ hstart)
  | @alternative_next a item items m left o made later hmore hfirst hrest ihfirst ihrest =>
      have hframe : m.Frame env left := hfirst.framed hm
      exact ihrest (hframe.observe _ _).valid (ihfirst hm hstart)
  | alternative_last hends hfirst ih => exact ih hm hstart
  | @many_next a body m left o made later hfirst hless hrest ihfirst ihrest =>
      have hframe : Machine.Frame env { m with committed := false } left :=
        hfirst.framed ⟨hm.within, hm.vars⟩
      exact ihrest hframe.valid (ihfirst ⟨hm.within, hm.vars⟩ hstart)
  | many_last hfirst hends ih =>
      rw [snd_accepted]
      exact ih ⟨hm.within, hm.vars⟩ hstart
  | @plus_next a body m left o made later hfirst hless hrest ihfirst ihrest =>
      have hframe : m.Frame env left := hfirst.framed hm
      rw [frontier_rewinding]
      exact ihrest hframe.valid (ihfirst hm hstart)
  | optional hbody ih =>
      rw [frontier_rewinding, Eval.optional_eq, snd_keepingCommitment, snd_accepted]
      exact ih ⟨hm.within, hm.vars⟩ hstart
  | notAhead hbody ih | ahead hbody ih =>
      rw [frontier_rewinding]
      exact ih ⟨hm.within, hm.vars⟩ hstart
  | label hbody ih =>
      rw [frontier_rewinding]
      exact inText_labeled (ih ⟨hm.within, hm.vars⟩ hstart) hm
  | @hit a id definition refused m hdefinition hknown =>
      rw [frontier_knownMismatch]
      exact inText_noteFailure hstart hm (.rule id)
  | @body a id definition m o made hdefinition hknown hbody ih =>
      rw [countMiss_eq] at ih ⊢
      exact inText_body (ih ⟨hm.within, m.vars.valid_enter⟩ hstart) ⟨hm.within, hm.vars⟩

/-- A rule that does not match leaves something that was tried. -/
theorem Eval.tried_body_ne_nil {id : RuleId} {definition : Rule V} {key? : Option MemoKey}
    (h : Derives env a (.expr definition.body) (enterRule id definition m) o made)
    (hm : m.Valid env) (hrecording : m.recording env = true)
    (hstart : m.frontier.InText env.source.text)
    (hmismatched : (body env id definition key? (fun _ => o) m).1 = .mismatched) :
    (body env id definition key? (fun _ => o) m).2.frontier.tried ≠ [] := by
  have hinner := h.frontier_inText ⟨hm.within, m.vars.valid_enter⟩ hstart
  have hframe := h.framed ⟨hm.within, m.vars.valid_enter⟩
  rcases o with ⟨_ | _ | error, inside⟩
  · cases hmismatched
  · have hframe : (enterRule id definition m).Frame env inside := hframe
    have hleft : (leaveRule definition m inside).recording env = true :=
      hframe.recording_eq.trans hrecording
    rw [frontier_body_mismatched, frontier_noteFailure hleft]
    exact Frontier.InText.tried_recordNamed_ne_nil hinner m.offset m.frontier (.rule id)
  · cases hmismatched

/-- Where mismatches count, a rule that does not match has something noted. -/
theorem Derives.tried_ne_nil {id : RuleId} (h : Derives env a (.call id) m o made)
    (hm : m.Valid env) (hrecording : m.recording env = true)
    (hstart : m.frontier.InText env.source.text) (hmismatched : o.1 = .mismatched) :
    o.2.frontier.tried ≠ [] := by
  cases h with
  | unknown | limit => cases hmismatched
  | @hit a id definition refused m hdefinition hknown =>
      change (knownMismatch env id refused m).frontier.tried ≠ []
      rw [frontier_knownMismatch, frontier_noteFailure hrecording]
      exact hstart.tried_recordNamed_ne_nil m.offset m.frontier (.rule id)
  | body hdefinition hknown hbody =>
      rw [countMiss_eq] at hbody hmismatched ⊢
      exact Eval.tried_body_ne_nil hbody ⟨hm.within, hm.vars⟩ hrecording hstart hmismatched

/-! ## Parses -/

/-- A failed parse has something to report, at a place in the text. -/
theorem inText_reportedFrom (hpass : env.pass = .first) {root : RuleId}
    (h : FailedShort (runPass env root)) :
    (reportedFrom env (runPass env root)).frontier.InText env.source.text ∧
      (reportedFrom env (runPass env root)).frontier.tried ≠ [] := by
  have hvalid := valid_passStart env
  have hrecording : (passStart env).recording env = true := by
    rw [passStart_eq]
    simp [Machine.recording, Machine.start, hpass, Pass.isRepair]
  have hstart : (passStart env).frontier.InText env.source.text := by
    rw [passStart_eq]
    exact Frontier.inText_empty _
  rcases exists_passMakes env root with ⟨made, hmade⟩
  have hinside := Derives.frontier_inText hmade hvalid hstart
  have hnoted := Derives.tried_ne_nil hmade hvalid hrecording hstart
  have hframe := framed_runPass env root
  generalize runPass env root = o at h hinside hnoted hframe ⊢
  rcases o with ⟨_ | _ | error, left⟩
  · have hframe : (passStart env).Frame env left := hframe
    refine ⟨Machine.inText_recordFailure hinside hframe.valid .endOfInput, ?_⟩
    have hleft : left.recording env = true := hframe.recording_eq.trans hrecording
    rw [reportedFrom, Machine.recordFailure, if_pos hleft]
    exact hinside.tried_record_ne_nil left.offset .endOfInput
  · exact ⟨hinside, hnoted rfl⟩
  · exact absurd rfl (h.ne_aborted error)

section Results

variable {grammar : Grammar V} {settings : Settings} {source : Source} {root : RuleId}
variable {segments : List Segment}

/-- No place is reported behind the end. -/
theorem Text.Source.offset_position_le (segments : List Segment) (offset : Nat) :
    ((Source.ofSegments segments).position offset).offset ≤ byteSize (writtenText segments) := by
  rw [← writtenOffset_byteSize]
  exact writtenOffset_mono segments (Nat.min_le_right offset _)

/-- A text is reported as it was written, with or without indentation markers. -/
theorem exists_ofSegments {text : List Char}
    (hsource : source = .plain text ∨ ∃ options, source = .withLayout options text) :
    ∃ segments, source = .ofSegments segments ∧ writtenText segments = text := by
  rcases hsource with rfl | ⟨options, rfl⟩
  · exact ⟨_, rfl, List.append_nil text⟩
  · exact ⟨_, rfl, Layout.written_annotate options text⟩

/-- A parse that succeeds ends at the end. -/
theorem offset_stop_of_succeeded {success : Success V}
    (h : (execute grammar settings (.ofSegments segments) root).result =
      .ok (.succeeded success)) :
    success.stop.offset = byteSize (writtenText segments) := by
  rcases exists_of_succeeded h with ⟨m, hrun, hend, rfl⟩
  have hvalid := valid_of_runPass hrun nofun
  have hoffset := hvalid.within.offset_of_atEnd hend
  change ((Source.ofSegments segments).position m.cursor.offset).offset = _
  rw [hoffset]
  exact Source.offset_position_byteSize segments

/-- What is recovered stops at a place of the text. -/
theorem boundary_stop_of_failed {failure : Failure V} {recovered : Recovered V}
    (h : (execute grammar settings (.ofSegments segments) root).result = .ok (.failed failure))
    (hrecovered : failure.recovered? = some recovered) :
    Boundary (writtenText segments) recovered.stop.offset := by
  rcases exists_of_recovered h hrecovered with ⟨errorOffset, left, -, hrun, rfl⟩
  have hvalid := valid_of_runPass hrun nofun
  exact Source.boundary_position hvalid.within.boundary

/-- The gaps of what is recovered are where the parse failed or behind that, but not behind
the end. -/
theorem offset_gap_of_failed {failure : Failure V} {recovered : Recovered V} {gap : Gap}
    (h : (execute grammar settings (.ofSegments segments) root).result = .ok (.failed failure))
    (hrecovered : failure.recovered? = some recovered) (hgap : gap ∈ recovered.gaps) :
    failure.position.offset ≤ gap.position.offset ∧
      gap.position.offset ≤ byteSize (writtenText segments) := by
  rcases exists_of_recovered h hrecovered with ⟨errorOffset, left, hposition, hrun, rfl⟩
  rcases exists_passMakes ⟨grammar, .ofSegments segments, settings, .repair errorOffset⟩ root
    with ⟨made, hmade⟩
  have hgaps := hmade.gaps_eq
  rw [hrun] at hgaps
  have hgap : gap ∈ left.gaps.reverse := hgap
  rw [hgaps] at hgap
  rcases List.mem_map.1 hgap with ⟨standIn, hmem, rfl⟩
  have hplaced := (hmade.placed rfl (valid_passStart _) trivial standIn hmem).placed
  rw [hplaced.position_eq, hposition]
  exact ⟨Source.position_mono _ hplaced.errorOffset_le, Source.offset_position_le segments _⟩

/-- What a parse reports is at places of the text as it was written, also where patterns see
indentation markers.  A parse that succeeds ends at the end.  One that fails says so at a
character boundary, which belongs to its frontier, with what was expected there, each name
once, and what was found there: nothing exactly at the end of the text that patterns see.
Whatever it recovered stops at a character boundary, too, and has its gaps where the parse
failed or behind that, but not behind the end. -/
theorem places_of_result {text : List Char}
    (hsource : source = .plain text ∨ ∃ options, source = .withLayout options text) :
    match (execute grammar settings source root).result with
    | .ok (.succeeded success) => success.stop.offset = byteSize text
    | .ok (.failed failure) =>
      Boundary text failure.position.offset ∧
      failure.expected ≠ [] ∧
      failure.expected.Nodup ∧
      (∃ front rest, source.text = front ++ rest ∧
        byteSize front = (reportedFrom ⟨grammar, source, settings, .first⟩
          (runPass ⟨grammar, source, settings, .first⟩ root)).frontier.position ∧
        failure.position = source.position (byteSize front) ∧
        (failure.found? = none ↔ byteSize front = byteSize source.text) ∧
        failure.found? = rest.head?) ∧
      ∀ recovered, failure.recovered? = some recovered →
        Boundary text recovered.stop.offset ∧
        ∀ gap ∈ recovered.gaps,
          failure.position.offset ≤ gap.position.offset ∧ gap.position.offset ≤ byteSize text
    | .error _ => True := by
  rcases exists_ofSegments hsource with ⟨segments, rfl, rfl⟩
  generalize hresult : (execute grammar settings (.ofSegments segments) root).result = result
  rcases result with error | success | failure
  · trivial
  · exact offset_stop_of_succeeded hresult
  · rcases exists_failureOf hresult with ⟨hshort, recovered?, stats, rfl⟩
    rcases inText_reportedFrom rfl hshort with ⟨hplace, htried⟩
    rcases Source.exists_charAt? hplace.boundary with ⟨front, rest, htext, hfront, hfound⟩
    refine ⟨Source.boundary_position hplace.boundary, Frontier.labels_ne_nil grammar htried,
      Frontier.nodup_labels grammar _, ⟨front, rest, htext, hfront.symm, ?_, ?_, hfound⟩,
      fun recovered hrecovered => ⟨boundary_stop_of_failed hresult hrecovered,
        fun gap hgap => offset_gap_of_failed hresult hrecovered hgap⟩⟩
    · exact congrArg (Source.ofSegments segments).position hfront
    · rw [htext, ← head?_eq_none_iff_byteSize, ← hfound]
      rfl

end Results

/-- A grammar of blocks in which the first of two characters may be missing. -/
def indentedPair : Grammar Nat where
  rules := #[
    ⟨"block", .seq [.char ':', .char '\n', .star (.char ' '), .indent, .char 'b', .char 'c',
      .dedent, .endOfInput], {}⟩]

/-- In a text with a block the failure and the repair are placed in the text without the markers.
-/
theorem places_of_result_indentedPair :
    ∃ failure recovered gap,
      (execute indentedPair { recovery := true } (.withLayout {} [':', '\n', ' ', 'c'])
        ⟨0⟩).result = .ok (.failed failure) ∧
      failure.recovered? = some recovered ∧
      gap ∈ recovered.gaps ∧
      Boundary [':', '\n', ' ', 'c'] failure.position.offset ∧
      failure.expected ≠ [] ∧
      failure.position.offset ≤ gap.position.offset ∧
      gap.position.offset ≤ 4 := by
  have hfailed :
      (execute indentedPair { recovery := true } (.withLayout {} [':', '\n', ' ', 'c'])
        ⟨0⟩).result =
        .ok (.failed ⟨⟨3, 1, 1⟩, ["'b'"], some 'c',
          some ⟨⟨4, 1, 2⟩, true, [], [⟨⟨3, 1, 1⟩, "'b'"⟩], none⟩, ⟨2, 0, 0, 0, 0, 1, 1⟩⟩) := by
    cbv
  have hplaces := @places_of_result Nat indentedPair { recovery := true } _ ⟨0⟩
    [':', '\n', ' ', 'c'] (.inr ⟨{}, rfl⟩)
  rw [hfailed] at hplaces
  rcases hplaces with ⟨hboundary, hexpected, -, -, hgaps⟩
  rcases (hgaps _ rfl).2 _ (List.mem_singleton_self _) with ⟨hbehind, hinside⟩
  exact ⟨_, _, _, hfailed, rfl, List.mem_singleton_self _, hboundary, hexpected, hbehind, hinside⟩

end Peg
