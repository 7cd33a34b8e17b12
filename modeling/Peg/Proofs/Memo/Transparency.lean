import Peg.Proofs.Memo.Refusal

/-!
# Parsing with and without a memo

Remembering mismatches saves work and does nothing else, as long as the rules that ask
for it run no actions.  A parse with a memo is compared with one without: the two are
always in the same state, but for what is recorded of them.

The invariant is about the memo.  Each rule that is remembered refuses its place, and,
where error reports are compared too, the frontier covers what the rule would add to it.

Main results:

- `Eval.MemoSound`: what is remembered is true.
- `Eval.simulates_memo`: single steps do alike with and without a memo.
- `Eval.follows_invoke_memo`: rule invocations do.
-/

namespace Peg

variable {V : Type}

/-- The environment with remembering switched on or off. -/
def Env.memoizing (env : Env V) (on : Bool) : Env V :=
  { env with settings := { env.settings with memoization := on } }

namespace Eval

open Machine

/-- What is remembered is true: the rules refuse their places.  If error reports are
compared, what the rules that may be invoked outside of lookahead add is covered. -/
def MemoSound (env : Env V) (root : RuleId) (reported : Prop) (memo : Memo)
    (frontier : Frontier V) : Prop :=
  ∀ key refused, memo.find? key = some refused →
    ∃ added, Refuses (env.memoizing false) key refused added ∧
      (reported → env.grammar.Invokes root false key.rule →
        frontier.Covers env.grammar key.offset added)

/-- Two machines differ in what is recorded only. -/
def SameRun (m n : Machine V) : Prop :=
  ∃ frontier memo stats events,
    n = { m with frontier := frontier, memo := memo, stats := stats, events := events }

/-- A parse with a memo stands where one without a memo stands. -/
structure Matches (env : Env V) (root : RuleId) (reported : Prop) (m n : Machine V) : Prop where
  same : SameRun m n
  sound : MemoSound env root reported m.memo m.frontier
  report : reported → m.frontier.SameReport env.grammar n.frontier

/-- Stretches of two parses, one with a memo and one without, that end alike. -/
def AlongMemo (env : Env V) (root : RuleId) (reported : Prop) : Stretches V :=
  fun _ _ l l' => Matches env root reported l l'

variable {env : Env V} {root : RuleId} {reported : Prop} {m n l l' : Machine V}
variable {memo before : Memo} {frontier : Frontier V}

/-! ## The memo -/

/-- Where nothing is remembered, nothing is false. -/
theorem memoSound_empty (env : Env V) (root : RuleId) (reported : Prop) (frontier : Frontier V) :
    MemoSound env root reported .empty frontier := by
  intro key refused hfound
  rw [Memo.find?_empty] at hfound
  cases hfound

/-- What is recorded later takes nothing away from what was covered. -/
theorem MemoSound.append (h : MemoSound env root reported memo frontier) (later : Frontier V) :
    MemoSound env root reported memo (frontier ++ later) := by
  intro key refused hfound
  rcases h key refused hfound with ⟨added, hrefuses, hcovers⟩
  exact ⟨added, hrefuses, fun hreported hinvokes =>
    (hcovers hreported hinvokes).append later⟩

/-- A mismatch may be remembered if the rule refuses the place and what it would add is covered.
-/
theorem MemoSound.insert (h : MemoSound env root reported memo frontier) {key : MemoKey}
    {refused : Bool} {added : Frontier V}
    (hrefuses : Refuses (env.memoizing false) key refused added)
    (hcovers : reported → env.grammar.Invokes root false key.rule →
      frontier.Covers env.grammar key.offset added) (limit : Nat) :
    MemoSound env root reported (memo.insert limit key refused) frontier := by
  intro other found hfound
  by_cases hkey : other = key
  · subst hkey
    rw [Memo.find?_insert_self, Option.some_inj] at hfound
    subst hfound
    exact ⟨added, hrefuses, hcovers⟩
  · exact h other found (Memo.eq_of_find?_insert hkey hfound)

/-- A failed rule or label may take away what was recorded in it.  What is remembered of
places at its start or behind was not covered by that. -/
theorem MemoSound.recordNamed {old : Frontier V} {start : Nat}
    (hbefore : MemoSound env root reported before old)
    (h : MemoSound env root reported memo frontier)
    (hold : ∀ key found, key.offset < start → memo.find? key = some found →
      before.find? key = some found)
    (hle : old.position ≤ frontier.position) (name : Expected V) :
    MemoSound env root reported memo (frontier.recordNamed start old name) := by
  by_cases hstart : start < frontier.position
  · rwa [Frontier.recordNamed_of_lt hstart]
  · intro key refused hfound
    by_cases hkey : key.offset < start
    · rcases hbefore key refused (hold key refused hkey hfound) with ⟨added, hrefuses, hcovers⟩
      exact ⟨added, hrefuses, fun hreported hinvokes =>
        (hcovers hreported hinvokes).recordNamed hle (Nat.not_lt.1 hstart)⟩
    · rcases h key refused hfound with ⟨added, hrefuses, hcovers⟩
      refine ⟨added, hrefuses, fun hreported hinvokes hlt => ?_⟩
      have hadded := (hcovers hreported hinvokes hlt).1
      omega

/-- A failed rule or label keeps the memo sound, if what was remembered in front of it was so
before. -/
theorem MemoSound.noteFailure (hbefore : MemoSound env root reported m.memo m.frontier)
    (h : MemoSound env root reported memo l.frontier)
    (hold : ∀ key found, key.offset < m.offset → memo.find? key = some found →
      m.memo.find? key = some found)
    (hle : m.frontier.position ≤ l.frontier.position) (env' : Env V) (name : Expected V) :
    MemoSound env root reported memo (Eval.noteFailure env' m l name).frontier := by
  by_cases hrecording : l.recording env' = true
  · rw [frontier_noteFailure hrecording]
    exact hbefore.recordNamed h hold hle name
  · rwa [frontier_noteFailure_of_not_recording (eq_false_of_ne_true hrecording)]

/-! ## Single steps -/

/-- Both parses stand at the same place in the text. -/
theorem Matches.cursor_eq (h : Matches env root reported m n) : m.cursor = n.cursor := by
  rcases h.same with ⟨frontier, memo, stats, events, rfl⟩
  rfl

/-- The switch for remembering has no say in what is recorded. -/
theorem recording_memoizing (on : Bool) (m : Machine V) :
    m.recording (env.memoizing on) = m.recording env :=
  rfl

/-- A failure is noted in both runs. -/
theorem report_noteFailure (hm : Matches env root reported m n)
    (hsame : SameRun l l') (hreport : reported → l.frontier.SameReport env.grammar l'.frontier)
    (name : Expected V) (hreported : reported) :
    (noteFailure (env.memoizing true) m l name).frontier.SameReport env.grammar
      (noteFailure (env.memoizing false) n l' name).frontier := by
  have hoffset : n.offset = m.offset := congrArg Text.Cursor.offset hm.cursor_eq.symm
  have hrecording : l'.recording (env.memoizing false) = l.recording (env.memoizing true) := by
    rcases hsame with ⟨frontier, memo, stats, events, rfl⟩
    rfl
  by_cases hrec : l.recording (env.memoizing true) = true
  · rw [frontier_noteFailure hrec, frontier_noteFailure (hrecording.trans hrec), hoffset]
    exact (hreport hreported).recordNamed (hm.report hreported) _ _
  · have hnot := eq_false_of_ne_true hrec
    rw [frontier_noteFailure_of_not_recording hnot,
      frontier_noteFailure_of_not_recording (hrecording.trans hnot)]
    exact hreport hreported

/-- Noting a failure changes what is recorded only. -/
theorem SameRun.noteFailure (hm : SameRun m n) (h : SameRun l l') (env₁ env₂ : Env V)
    (name : Expected V) :
    SameRun (Eval.noteFailure env₁ m l name) (Eval.noteFailure env₂ n l' name) := by
  rw [noteFailure_eq env₁, noteFailure_eq env₂]
  generalize (Eval.noteFailure env₁ m l name).frontier = frontier₁
  generalize (Eval.noteFailure env₂ n l' name).frontier = frontier₂
  rcases hm with ⟨_, _, _, _, rfl⟩
  rcases h with ⟨_, _, _, _, rfl⟩
  exact ⟨_, _, _, _, rfl⟩

/-- A failed rule or label is noted with and without a memo. -/
theorem noteFailure_memo (hm : Matches env root reported m n)
    (h : Matches env root reported l l')
    (hold : ∀ key found, key.offset < m.offset → l.memo.find? key = some found →
      m.memo.find? key = some found)
    (hle : m.frontier.position ≤ l.frontier.position) (name : Expected V) :
    Matches env root reported (noteFailure (env.memoizing true) m l name)
      (noteFailure (env.memoizing false) n l' name) := by
  refine ⟨hm.same.noteFailure h.same _ _ name, ?_, report_noteFailure hm h.same h.report name⟩
  have hsound := hm.sound.noteFailure h.sound hold hle (env.memoizing true) name
  rw [noteFailure_eq (env.memoizing true) m l name]
  exact hsound

/-- Standing in for a terminal does not depend on the memo. -/
theorem missing_memoizing (on : Bool) (e : Expr V) :
    missing (env.memoizing on) e = missing env e :=
  rfl

/-- Nor does running an action. -/
theorem runAction_memoizing (on : Bool) (action : Action V) (span : Text.Span)
    (synthetic : Bool) :
    runAction (env.memoizing on) action span synthetic = runAction env action span synthetic :=
  rfl

theorem SameRun.recording_eq (h : SameRun m n) (env : Env V) :
    n.recording env = m.recording env := by
  rcases h with ⟨frontier, memo, stats, events, rfl⟩
  rfl

theorem SameRun.offset_eq (h : SameRun m n) : n.offset = m.offset := by
  rcases h with ⟨frontier, memo, stats, events, rfl⟩
  rfl

/-- What is recorded may be changed on both sides. -/
theorem SameRun.record (h : SameRun m n) (frontier frontier' : Frontier V) (memo memo' : Memo)
    (stats stats' : Stats) (events events' : List Event) :
    SameRun { m with frontier := frontier, memo := memo, stats := stats, events := events }
      { n with frontier := frontier', memo := memo', stats := stats', events := events' } := by
  rcases h with ⟨_, _, _, _, rfl⟩
  exact ⟨frontier', memo', stats', events', rfl⟩

/-- A failed terminal is noted with and without a memo. -/
theorem recordFailure_memo (h : Matches env root reported m n) (expected : Expected V) :
    Matches env root reported (m.recordFailure env m.offset expected)
      (n.recordFailure env n.offset expected) := by
  unfold recordFailure
  rw [h.same.recording_eq, h.same.offset_eq]
  split
  next =>
      simp only [Frontier.record_eq_append]
      exact ⟨h.same.record _ _ _ _ _ _ _ _, h.sound.append _, fun hreported =>
        (h.report hreported).append _⟩
  next => exact h

/-- A failed terminal does alike with and without a memo. -/
theorem missing_memo (e : Expr V) (h : Matches env root reported m n) :
    Alike (Matches env root reported) (missing (env.memoizing true) e m)
      (missing (env.memoizing false) e n) := by
  rw [missing_memoizing, missing_memoizing]
  unfold missing
  split
  next hpass => exact .mismatched (recordFailure_memo h (.terminal e))
  next errorOffset hpass =>
      have hmatches := h
      rcases h with ⟨⟨frontier, memo, stats, events, rfl⟩, hsound, hreport⟩
      change Alike _ _ (if mayStandIn env errorOffset e m then _ else _)
      split
      next =>
          change Alike _ _ (if m.mayInsert then _ else _)
          split
          next => exact .matched ⟨⟨_, _, _, _, rfl⟩, hsound, hreport⟩
          next => exact .mismatched ⟨⟨_, _, _, _, rfl⟩, hsound, hreport⟩
      next => exact .mismatched hmatches

/-- An action does alike with and without a memo, since it cannot see what is recorded. -/
theorem runAction_memo (action : Action V) (span : Text.Span) (synthetic : Bool)
    (h : Matches env root reported m n) :
    Alike (Matches env root reported) (runAction (env.memoizing true) action span synthetic m)
      (runAction (env.memoizing false) action span synthetic n) := by
  rw [runAction_memoizing, runAction_memoizing]
  rcases h with ⟨⟨frontier, memo, stats, events, rfl⟩, hsound, hreport⟩
  unfold runAction
  dsimp only
  generalize (action ⟨env.source.text, span, synthetic, env.pass.isRepair⟩).run
    ⟨m.stack, m.vars⟩ = result
  rcases result with ⟨error | _ | _, space⟩
  · exact .aborted _ _ _
  · exact .mismatched ⟨⟨_, _, _, _, rfl⟩, hsound, hreport⟩
  · exact .matched ⟨⟨_, _, _, _, rfl⟩, hsound, hreport⟩

/-- Single steps do alike with and without a memo. -/
theorem simulates_memo (env : Env V) (root : RuleId) (reported : Prop) :
    Simulates (env.memoizing true) (env.memoizing false) (fun _ => True)
      (AlongMemo env root reported) where
  source_eq := rfl
  restart h := h
  trans _ h := h
  cursor_eq h := h.cursor_eq
  inserted_lt := by
    rintro m n l l' ⟨⟨_, _, _, _, rfl⟩, -, -⟩ - - ⟨⟨_, _, _, _, rfl⟩, -, -⟩
    exact Iff.rfl
  rewind := by
    rintro m n l l' ⟨⟨_, _, _, _, rfl⟩, -, -⟩ ⟨⟨_, _, _, _, rfl⟩, hsound, hreport⟩
    exact ⟨⟨_, _, _, _, rfl⟩, hsound, hreport⟩
  recommit := by
    rintro m₀ n₀ m n l l' before before' f ⟨⟨_, _, _, _, rfl⟩, -, -⟩
      ⟨⟨_, _, _, _, rfl⟩, hsound, hreport⟩ after after'
    exact ⟨⟨_, _, _, _, rfl⟩, hsound, hreport⟩
  observe := by
    rintro m n l l' stats stats' events events' h
    exact ⟨h.same.record _ _ _ _ _ _ _ _, h.sound, h.report⟩
  consume := by
    rintro m n cursor - - ⟨⟨_, _, _, _, rfl⟩, hsound, hreport⟩
    exact ⟨⟨_, _, _, _, rfl⟩, hsound, hreport⟩
  missing e _ _ h := missing_memo e h
  runAction span synthetic _ h := runAction_memo _ span synthetic h
  rounds_eq := by
    rintro m n ⟨⟨_, _, _, _, rfl⟩, -, -⟩
    rfl
  openRound := by
    rintro m n - ⟨⟨_, _, _, _, rfl⟩, hsound, hreport⟩
    exact ⟨⟨_, _, _, _, rfl⟩, hsound, hreport⟩
  wouldInsert_eq := by
    rintro m n l l' ⟨⟨_, _, _, _, rfl⟩, -, -⟩
    rfl
  keepRound := by
    rintro m n l l' - ⟨⟨_, _, _, _, rfl⟩, -, -⟩ ⟨⟨_, _, _, _, rfl⟩, hsound, hreport⟩
    exact ⟨⟨_, _, _, _, rfl⟩, hsound, hreport⟩
  undoRound := by
    rintro m n l l' - ⟨⟨_, _, _, _, rfl⟩, -, -⟩ ⟨⟨_, _, _, _, rfl⟩, hsound, hreport⟩
    exact ⟨⟨_, _, _, _, rfl⟩, hsound, hreport⟩
  openProbe := by
    rintro m n ⟨⟨_, _, _, _, rfl⟩, hsound, hreport⟩
    exact ⟨⟨_, _, _, _, rfl⟩, hsound, hreport⟩
  closeProbe := by
    rintro m n l l' ⟨⟨_, _, _, _, rfl⟩, -, -⟩ - - ⟨⟨_, _, _, _, rfl⟩, hsound, hreport⟩
    exact ⟨⟨_, _, _, _, rfl⟩, hsound, hreport⟩
  openLabel := by
    rintro m n name ⟨⟨_, _, _, _, rfl⟩, hsound, hreport⟩
    exact ⟨⟨_, _, _, _, rfl⟩, hsound, hreport⟩
  closeLabel := by
    rintro m n l l' name ⟨⟨_, _, _, _, rfl⟩, -, -⟩ ⟨⟨_, _, _, _, rfl⟩, hsound, hreport⟩
    exact ⟨⟨_, _, _, _, rfl⟩, hsound, hreport⟩
  missLabel := by
    intro m n l l' name hstart hleft _ hlast
    have hclose : Matches env root reported (closeLabel l) (closeLabel l') := by
      rcases hlast with ⟨⟨_, _, _, _, rfl⟩, hsound, hreport⟩
      exact ⟨⟨_, _, _, _, rfl⟩, hsound, hreport⟩
    exact noteFailure_memo hstart hclose hleft.memo_old hleft.frontier_le (.label name)

/-! ## Rules -/

variable {probing : Bool}

/-- The comparison goes on inside of a rule. -/
theorem ready_enterRule_memo (id : RuleId) (definition : Rule V)
    (hready : Ready (env.memoizing true) (env.memoizing false) (AlongMemo env root reported)
      probing m n) :
    Ready (env.memoizing true) (env.memoizing false) (AlongMemo env root reported) probing
      (enterRule id definition m) (enterRule id definition n) where
  left := ⟨hready.left.within, m.vars.valid_enter⟩
  right := ⟨hready.right.within, n.vars.valid_enter⟩
  probing_eq := hready.probing_eq
  start := by
    rcases hready.start with ⟨⟨_, _, _, _, rfl⟩, hsound, hreport⟩
    exact ⟨⟨_, _, _, _, rfl⟩, hsound, hreport⟩

/-- Counts are not compared. -/
theorem ready_count_memo (stats : Stats)
    (hready : Ready (env.memoizing true) (env.memoizing false) (AlongMemo env root reported)
      probing m n) :
    Ready (env.memoizing true) (env.memoizing false) (AlongMemo env root reported) probing
      { m with stats := stats } n where
  left := ⟨hready.left.within, hready.left.vars⟩
  right := hready.right
  probing_eq := hready.probing_eq
  start := by
    rcases hready.start with ⟨⟨_, _, _, _, rfl⟩, hsound, hreport⟩
    exact ⟨⟨_, _, _, _, rfl⟩, hsound, hreport⟩

/-- A rule is left in both parses. -/
theorem leaveRule_memo {definition : Rule V} (hm : Matches env root reported m n)
    (h : Matches env root reported l l') :
    Matches env root reported (leaveRule definition m l) (leaveRule definition n l') := by
  rcases hm with ⟨⟨_, _, _, _, rfl⟩, -, -⟩
  rcases h with ⟨⟨_, _, _, _, rfl⟩, hsound, hreport⟩
  exact ⟨⟨_, _, _, _, rfl⟩, hsound, hreport⟩

/-- A rule adds the same nodes in both parses. -/
theorem contribute_memo (id : RuleId) (definition : Rule V) (hm : Matches env root reported m n)
    (h : Matches env root reported l l') :
    Matches env root reported (contribute id definition m l) (contribute id definition n l') := by
  rcases hm with ⟨⟨_, _, _, _, rfl⟩, -, -⟩
  rcases h with ⟨⟨_, _, _, _, rfl⟩, hsound, hreport⟩
  unfold contribute
  split
  next => exact ⟨⟨_, _, _, _, rfl⟩, hsound, hreport⟩
  next => exact ⟨⟨_, _, _, _, rfl⟩, hsound, hreport⟩

/-- In a first pass outside of lookahead failures are recorded. -/
theorem recording_of_probes (hpass : env.pass = .first) (h : (m.probes != 0) = false) :
    m.recording env = true := by
  have hprobes : m.probes = 0 := by simpa using h
  simp [recording, hpass, Pass.isRepair, hprobes]

theorem probing_of_recording (h : m.recording env = true) : (m.probes != 0) = false := by
  simp only [recording, Bool.and_eq_true] at h
  simpa using h.2

/-- What is remembered has no say in what is recorded. -/
theorem recordNamed_setMemo (env : Env V) (m : Machine V) (memo : Memo) (start : Nat)
    (before : Frontier V) (expected : Expected V) :
    recordNamed env { m with memo := memo } start before expected =
      { m.recordNamed env start before expected with memo := memo } := by
  unfold recordNamed
  split
  next hrecording => rw [if_pos (show m.recording env = true from hrecording)]
  next hrecording => rw [if_neg (show ¬ m.recording env = true from hrecording)]

/-- A mismatch that is remembered is true. -/
theorem sound_remember (hreported : reported → env.pass = .first ∧ env.grammar.MemoApart root)
    {id : RuleId} {definition : Rule V} (hdefinition : env.grammar.rule? id = some definition)
    (hfree : env.grammar.ActionFree id) (hmemo : definition.options.memoMismatches = true)
    (hinvokes : env.grammar.Invokes root probing id) {allowance : Nat}
    (hready : Ready (env.memoizing true) (env.memoizing false) (AlongMemo env root reported)
      probing m n)
    {inside inside' : Machine V}
    (hbody : expr (env.memoizing false) (invoke (env.memoizing false) allowance)
      definition.body (enterRule id definition n) = (.mismatched, inside'))
    (hinserted : inside.inserted = m.inserted) (hsame : SameRun inside inside')
    (hnote : Matches env root reported
      (noteFailure (env.memoizing true) m (leaveRule definition m inside) (.rule id))
      (noteFailure (env.memoizing false) n (leaveRule definition n inside') (.rule id)))
    (limit : Nat) :
    MemoSound env root reported
      (inside.memo.insert limit ⟨id, m.offset, m.memoContext env⟩ inside.wouldInsert)
      (noteFailure (env.memoizing true) m (leaveRule definition m inside) (.rule id)).frontier := by
  have hstart : Matches env root reported m n := hready.start
  have hinserted' : inside'.inserted = n.inserted := by
    rcases hsame with ⟨_, _, _, _, rfl⟩
    rcases hstart.same with ⟨_, _, _, _, rfl⟩
    exact hinserted
  have hwould : inside'.wouldInsert = inside.wouldInsert := by
    rcases hsame with ⟨_, _, _, _, rfl⟩
    rfl
  have hcontext : n.memoContext (env.memoizing false) = m.memoContext env := by
    rcases hstart.same with ⟨_, _, _, _, rfl⟩
    rfl
  have hoff : (env.memoizing false).settings.memoization = false := rfl
  rcases refuses_of_mismatched hoff hdefinition hfree hready.right hbody hinserted'
    with ⟨added, hrefuses, hquiet⟩
  rw [hstart.same.offset_eq, hcontext, hwould] at hrefuses
  have hsound : MemoSound env root reported inside.memo _ := noteFailure_eq _ _ _ _ ▸ hnote.sound
  refine hsound.insert hrefuses (fun hrep houtside => ?_) limit
  have hprobing : probing = false := by
    cases probing with
    | false => rfl
    | true => exact absurd hinvokes ((hreported hrep).2 id definition hdefinition hmemo houtside)
  have hprobes : (n.probes != 0) = false := by
    rcases hstart.same with ⟨_, _, _, _, rfl⟩
    exact hready.probing_eq.trans hprobing
  have hrecording : n.recording env = true := recording_of_probes (hreported hrep).1 hprobes
  have hfrontier := hquiet.frontier_eq
  rw [recording_memoizing, if_pos hrecording] at hfrontier
  refine Frontier.Covers.sameReport ?_ (hnote.report hrep).symm
  rw [hfrontier]
  exact Frontier.covers_append _ _ _

/-- The bodies of a rule do alike, and what is remembered afterwards is true. -/
theorem alike_body_memo (hreported : reported → env.pass = .first ∧ env.grammar.MemoApart root)
    {id : RuleId} {definition : Rule V} (hdefinition : env.grammar.rule? id = some definition)
    (hinvokes : env.grammar.Invokes root probing id) {allowance : Nat}
    (h : Follows (env.memoizing true) (env.memoizing false) (AlongMemo env root reported) probing
      (expr (env.memoizing true) (invoke (env.memoizing true) allowance) definition.body)
      (expr (env.memoizing false) (invoke (env.memoizing false) allowance) definition.body))
    {key? : Option MemoKey}
    (hkey : ∀ key ∈ key?, key = ⟨id, m.offset, m.memoContext env⟩ ∧ env.grammar.ActionFree id ∧
      definition.options.memoMismatches = true)
    (hready : Ready (env.memoizing true) (env.memoizing false) (AlongMemo env root reported)
      probing m n) :
    Alike (Matches env root reported)
      (body (env.memoizing true) id definition key?
        (expr (env.memoizing true) (invoke (env.memoizing true) allowance) definition.body) m)
      (body (env.memoizing false) id definition none
        (expr (env.memoizing false) (invoke (env.memoizing false) allowance) definition.body)
        n) := by
  have hstart : Matches env root reported m n := hready.start
  have halike := h.reached (ready_enterRule_memo id definition hready)
  generalize hright : expr (env.memoizing false) (invoke (env.memoizing false) allowance)
    definition.body (enterRule id definition n) = outcome' at halike
  unfold body
  rw [hright]
  generalize expr (env.memoizing true) (invoke (env.memoizing true) allowance)
    definition.body (enterRule id definition m) = outcome at halike ⊢
  cases halike with
  | @matched inside inside' hreached =>
      have hleave : Matches env root reported (leaveRule definition m inside)
          (leaveRule definition n inside') := leaveRule_memo hstart hreached.along
      have hleave := contribute_memo id definition hstart hleave
      exact .matched ⟨hleave.same.record _ _ _ _ _ _ _ _, hleave.sound, hleave.report⟩
  | @mismatched inside inside' hreached =>
      have hleave : Matches env root reported (leaveRule definition m inside)
          (leaveRule definition n inside') := leaveRule_memo hstart hreached.along
      have hnote := noteFailure_memo hstart hleave hreached.left.memo_old hreached.left.frontier_le
        (.rule id)
      refine .mismatched ?_
      cases key? with
      | none => exact ⟨hnote.same.record _ _ _ _ _ _ _ _, hnote.sound, hnote.report⟩
      | some key =>
          rcases hkey key rfl with ⟨rfl, hfree, hmemo⟩
          unfold remember
          dsimp only
          split
          next hinserted =>
              have hnone : inside.inserted = m.inserted := hinserted
              have hsound := sound_remember hreported hdefinition hfree hmemo hinvokes hready
                hright hnone hreached.along.same hnote env.settings.maxMemoEntries
              rw [recordNamed_setMemo (env.memoizing true)
                { leaveRule definition m inside with nodes := m.nodes }]
              exact ⟨hnote.same.record _ _ _ _ _ _ _ _, hsound, hnote.report⟩
          next => exact ⟨hnote.same.record _ _ _ _ _ _ _ _, hnote.sound, hnote.report⟩
  | aborted error l l' => exact .aborted _ _ _
  | limited outcome limit position l' => exact .limited _ _ _ _

/-- A known mismatch by the fields it changes. -/
theorem knownMismatch_eq (env : Env V) (id : RuleId) (refused : Bool) (m : Machine V) :
    knownMismatch env id refused m =
      { m with
        wouldInsert := m.wouldInsert || refused
        frontier :=
          if m.recording env then m.frontier ++ ⟨m.offset, [.rule id]⟩ else m.frontier
        stats := (knownMismatch env id refused m).stats
        events := (knownMismatch env id refused m).events } := by
  unfold knownMismatch recordNamed
  dsimp only
  split
  next hrecording =>
      rw [if_pos (show m.recording env = true from hrecording), Frontier.recordNamed_self]
  next hrecording =>
      rw [if_neg (show ¬ m.recording env = true from hrecording)]

/-- A known mismatch leaves what matching the rule would have left. -/
theorem alike_hit_memo (hreported : reported → env.pass = .first ∧ env.grammar.MemoApart root)
    {id : RuleId} (hfree : env.grammar.ActionFree id)
    (hinvokes : env.grammar.Invokes root probing id) (allowance : Nat) {refused : Bool}
    (hready : Ready (env.memoizing true) (env.memoizing false) (AlongMemo env root reported)
      probing m n)
    (hfound : m.memo.find? ⟨id, m.offset, m.memoContext env⟩ = some refused) :
    Alike (Matches env root reported) (.mismatched, knownMismatch (env.memoizing true) id refused m)
      (invoke (env.memoizing false) allowance id n) := by
  have hstart : Matches env root reported m n := hready.start
  have hoff : (env.memoizing false).settings.memoization = false := rfl
  have hcontext : n.memoContext (env.memoizing false) = m.memoContext env := by
    rcases hstart.same with ⟨_, _, _, _, rfl⟩
    rfl
  rcases hstart.sound _ _ hfound with ⟨added, hrefuses, hcovers⟩
  rcases hrefuses.invoke_eq hoff hfree hready.right hstart.same.offset_eq hcontext allowance with
    ⟨limit, position, left, hinvoke⟩ | ⟨left, hinvoke, hframe, hquiet, hgaps⟩
  · rw [hinvoke]
    exact .limited _ _ _ _
  · have hleft := eq_of_refused hframe hquiet hgaps (invoke_mismatched hinvoke)
    have hfrontier := hquiet.frontier_eq
    rw [recording_memoizing, hstart.same.recording_eq] at hfrontier
    rw [hinvoke]
    refine .mismatched ⟨?_, ?_, fun hrep => ?_⟩
    · rw [hleft, knownMismatch_eq]
      rcases hstart.same with ⟨_, _, _, _, rfl⟩
      exact ⟨_, _, _, _, rfl⟩
    · rw [knownMismatch_eq]
      dsimp only
      split
      next => exact hstart.sound.append _
      next => exact hstart.sound
    · rw [knownMismatch_eq, hfrontier]
      by_cases hrecording : m.recording env = true
      · rw [recording_memoizing, if_pos hrecording, if_pos hrecording]
        have hprobing : probing = false :=
          hready.probing_eq.symm.trans (probing_of_recording hrecording)
        have hrepair : env.pass.isRepair = false :=
          Pass.isRepair_eq_false_iff.2 (hreported hrep).1
        have hcovered := hcovers hrep (hprobing ▸ hinvokes)
        exact (hcovered.sameReport_append (hrefuses.named hrepair)).trans
          ((hstart.report hrep).append added)
      · rw [recording_memoizing, if_neg hrecording, if_neg hrecording]
        exact hstart.report hrep

/-- Rule invocations do alike with and without a memo. -/
theorem follows_invoke_memo (hfree : env.grammar.MemoActionFree)
    (hreported : reported → env.pass = .first ∧ env.grammar.MemoApart root) (allowance : Nat)
    {id : RuleId} (hinvokes : env.grammar.Invokes root probing id) :
    Follows (env.memoizing true) (env.memoizing false) (AlongMemo env root reported) probing
      (invoke (env.memoizing true) allowance id) (invoke (env.memoizing false) allowance id) := by
  induction allowance generalizing id probing with
  | zero =>
      refine ⟨framed_invoke 0 id, framed_invoke 0 id, ?_⟩
      intro m n hready
      cases hdefinition : env.grammar.rule? id with
      | none =>
          rw [invoke_unknown (env.memoizing true) _ hdefinition,
            invoke_unknown (env.memoizing false) _ hdefinition]
          exact .aborted _ _ _
      | some definition =>
          have hsame : (env.memoizing false).grammar.rule? id = some definition := hdefinition
          rw [invoke_zero hsame]
          exact .limited _ _ _ _
  | succ allowance ih =>
      refine ⟨framed_invoke _ id, framed_invoke _ id, ?_⟩
      intro m n hready
      cases hdefinition : env.grammar.rule? id with
      | none =>
          rw [invoke_unknown (env.memoizing true) _ hdefinition,
            invoke_unknown (env.memoizing false) _ hdefinition]
          exact .aborted _ _ _
      | some definition =>
          have hbody : Follows (env.memoizing true) (env.memoizing false)
              (AlongMemo env root reported) probing
              (expr (env.memoizing true) (invoke (env.memoizing true) allowance) definition.body)
              (expr (env.memoizing false) (invoke (env.memoizing false) allowance)
                definition.body) :=
            (simulates_memo env root reported).follows_expr definition.body
              (fun _ _ => trivial)
              fun inside next hmentions => ih (.mention hinvokes hdefinition hmentions)
          have hswitch : (env.memoizing false).settings.memoization = false := rfl
          have hsame : (env.memoizing false).grammar.rule? id = some definition := hdefinition
          have hoff := invoke_succ_eq_body hswitch hsame allowance n
          rw [invoke_succ (env.memoizing true) _ hdefinition]
          unfold Eval.rule
          split
          next hasks =>
              have hmemo : definition.options.memoMismatches = true := by
                simpa [Env.memoizing] using hasks
              have hrule := hfree id definition hdefinition hmemo
              dsimp only
              split
              next refused hfound =>
                  exact alike_hit_memo hreported hrule hinvokes (allowance + 1) hready hfound
              next hfound =>
                  have hmiss := ready_count_memo
                    { m.stats with memoMisses := m.stats.memoMisses + 1 } hready
                  rw [hoff]
                  refine alike_body_memo hreported hdefinition hinvokes hbody ?_ hmiss
                  rintro key ⟨⟩
                  exact ⟨rfl, hrule, hmemo⟩
          next hasks =>
              rw [hoff]
              exact alike_body_memo hreported hdefinition hinvokes hbody (by simp) hready

end Eval

end Peg
