import Mathlib.Order.Filter.AtTopBot.Basic
import Peg.Proofs.Parse.Growth

/-!
# A parse that mirrors another

Two evaluations of one task are compared that may make different use of repairs, or of
the memo: of a choice the one may take a single round where the other takes two.  The
first evaluation is given by its derivation; the second one is shown to reach the same
verdict in a machine that agrees with that of the first, if only enough nested
invocations are allowed.

What the two have to have in common is asked of single steps, of rounds of a choice and
of known mismatches only.

Main results:

- `Settles`: an outcome that is reached with every allowance that is large enough.
- `Reflects`: the laws for single steps.
- `Reflects.mirrors`: whatever was derived is mirrored.
-/

namespace Peg

open Text

variable {V : Type}

/-! ## Settled outcomes -/

/-- An outcome is reached with every allowance that is large enough. -/
def Settles (env : Env V) (task : Task V) (m : Machine V) (o : Verdict × Machine V) : Prop :=
  ∀ᶠ allowance in Filter.atTop, ∃ made, Derives env allowance task m o made

section Settles

variable {env : Env V} {a : Nat} {task task' later : Task V} {m m' m₂ : Machine V}
variable {o o' o₂ : Verdict × Machine V} {made : List StandIn}

/-- An outcome that did not run into the limit is settled. -/
theorem Derives.settles (h : Derives env a task m o made) (hlimited : o.1.limited = false) :
    Settles env task m o :=
  Filter.eventually_atTop.2 ⟨a, fun _ hle => ⟨made, h.raise hlimited hle⟩⟩

/-- A settled outcome is derived. -/
theorem Settles.exists_derives (h : Settles env task m o) : ∃ a made, Derives env a task m o made :=
  h.exists

/-- There is one settled outcome. -/
theorem Settles.unique (h : Settles env task m o) (h' : Settles env task m o') : o = o' := by
  rcases (Filter.Eventually.and h h').exists with ⟨a, ⟨made, hmade⟩, ⟨made', hmade'⟩⟩
  rw [← hmade.run_eq, ← hmade'.run_eq]

/-- A machine grows to a settled outcome. -/
theorem Settles.grows (h : Settles env task m o) : m.Grows env o.2 := by
  rcases h.exists_derives with ⟨a, made, hmade⟩
  exact hmade.grows

/-- A task that is done by doing one part of it. -/
theorem Settles.of (h : Settles env task m o)
    (hwhole : ∀ {a made}, Derives env a task m o made → ∃ made', Derives env a task' m' o' made') :
    Settles env task' m' o' :=
  Filter.Eventually.mono h fun _ ⟨_, hmade⟩ => hwhole hmade

/-- A task that is done by doing two parts of it. -/
theorem Settles.of₂ (h : Settles env task m o) (hlater : Settles env later m₂ o₂)
    (hwhole : ∀ {a made made₂}, Derives env a task m o made → Derives env a later m₂ o₂ made₂ →
      ∃ made', Derives env a task' m' o' made') :
    Settles env task' m' o' := by
  filter_upwards [h, hlater] with a ⟨_, hmade⟩ ⟨_, hmade₂⟩
  exact hwhole hmade hmade₂

/-- A rule is invoked by matching its body, with one invocation less to be allowed. -/
theorem Settles.body {id : RuleId} {definition : Rule V}
    (hdefinition : env.grammar.rule? id = some definition)
    (hknown : Eval.known? env id definition m = none)
    (h : Settles env (.expr definition.body)
      (Eval.enterRule id definition (Eval.countMiss env definition m)) o) :
    Settles env (.call id) m
      (Eval.body env id definition (Eval.memoKey? env id definition m) (fun _ => o)
        (Eval.countMiss env definition m)) := by
  rcases Filter.eventually_atTop.1 h with ⟨least, hleast⟩
  refine Filter.eventually_atTop.2 ⟨least + 1, fun a hle => ?_⟩
  cases a with
  | zero => cases hle
  | succ a =>
      rcases hleast a (Nat.le_of_succ_le_succ hle) with ⟨made, hmade⟩
      exact ⟨made, .body hdefinition hknown hmade⟩

end Settles

/-! ## Machines that agree -/

/-- Two machines differ in the journals of their stacks, in the switch for repairs and
the note of a refused one, and in what is recorded only. -/
def Machine.Agrees (m n : Machine V) : Prop :=
  ∃ journals frontier memo mayInsert wouldInsert stats events,
    n = { m with
      stack := { m.stack with journals := journals }
      frontier := frontier
      memo := memo
      mayInsert := mayInsert
      wouldInsert := wouldInsert
      stats := stats
      events := events }

namespace Machine.Agrees

variable {m n k : Machine V}

/-- A machine agrees with itself. -/
theorem refl (m : Machine V) : m.Agrees m :=
  ⟨_, _, _, _, _, _, _, rfl⟩

/-- Agreement goes both ways. -/
theorem symm (h : m.Agrees n) : n.Agrees m := by
  rcases h with ⟨_, _, _, _, _, _, _, rfl⟩
  exact ⟨m.stack.journals, m.frontier, m.memo, m.mayInsert, m.wouldInsert, m.stats, m.events, rfl⟩

/-- Machines that agree with one machine agree with each other. -/
theorem trans (h : m.Agrees n) (hlast : n.Agrees k) : m.Agrees k := by
  rcases h with ⟨_, _, _, _, _, _, _, rfl⟩
  rcases hlast with ⟨_, _, _, _, _, _, _, rfl⟩
  exact ⟨_, _, _, _, _, _, _, rfl⟩

/-- Machines that agree stand at the same offset. -/
theorem offset_eq (h : m.Agrees n) : n.offset = m.offset := by
  rcases h with ⟨_, _, _, _, _, _, _, rfl⟩
  rfl

/-- Machines that agree are committed or not together. -/
theorem committed_eq (h : m.Agrees n) : n.committed = m.committed := by
  rcases h with ⟨_, _, _, _, _, _, _, rfl⟩
  rfl

/-- Machines that agree have made equally many repairs. -/
theorem inserted_eq (h : m.Agrees n) : n.inserted = m.inserted := by
  rcases h with ⟨_, _, _, _, _, _, _, rfl⟩
  rfl

/-- Machines that agree are equally deep inside of lookahead. -/
theorem probes_eq (h : m.Agrees n) : n.probes = m.probes := by
  rcases h with ⟨_, _, _, _, _, _, _, rfl⟩
  rfl

/-- Machines that agree have the same variables. -/
theorem vars_eq (h : m.Agrees n) : n.vars = m.vars := by
  rcases h with ⟨_, _, _, _, _, _, _, rfl⟩
  rfl

/-- Machines that agree have stood in for the same terminals. -/
theorem gaps_eq (h : m.Agrees n) : n.gaps = m.gaps := by
  rcases h with ⟨_, _, _, _, _, _, _, rfl⟩
  rfl

/-- Machines that agree hold the same values. -/
theorem values_eq (h : m.Agrees n) : n.stack.values = m.stack.values := by
  rcases h with ⟨_, _, _, _, _, _, _, rfl⟩
  rfl

/-- What makes a machine valid is among what is compared. -/
theorem valid {env : Env V} (h : m.Agrees n) (hm : m.Valid env) : n.Valid env := by
  rcases h with ⟨_, _, _, _, _, _, _, rfl⟩
  exact ⟨hm.within, hm.vars⟩

end Machine.Agrees

/-- Opening a round touches the journals and the switch for repairs only. -/
theorem Machine.agrees_openRound (m : Machine V) : m.Agrees (Eval.openRound m) :=
  ⟨_, _, _, _, _, _, _, rfl⟩

/-- Keeping the changes of a round leaves the values as they are. -/
theorem Machine.agrees_keepRound (m left : Machine V) : left.Agrees (Eval.keepRound m left) := by
  have hstack : left.stack.commit = { left.stack with journals := left.stack.commit.journals } := by
    unfold Stack.commit
    split <;> rfl
  rw [Eval.keepRound, Eval.closeRound, hstack]
  exact ⟨_, _, _, _, _, _, _, rfl⟩

/-- A first round that did not match is taken back, unless variables were changed. -/
theorem Machine.agrees_undoRound {env : Env V} {a : Nat} {items : List (Expr V)}
    {m left : Machine V} {made : List StandIn} (hm : m.Valid env)
    (htwo : Eval.takesTwoRounds env m = true)
    (h : Derives env a (.alternatives items) (Eval.openRound m) (.mismatched, left) made)
    (hvars : left.vars = m.vars) : m.Agrees (Eval.undoRound m left) := by
  have hround : (Eval.openRound m).Frame env left := h.framed ⟨hm.within, hm.vars⟩
  have hback : left.cursor = (Eval.openRound m).cursor ∧ left.nodes = (Eval.openRound m).nodes :=
    Eval.alternatives_mismatched h.run_eq
  have hgaps : left.gaps = m.gaps := h.grows.gaps_off rfl
  have hstack : left.stack.rollback = m.stack := hround.tracks.rollback_eq
  rcases hround.undoRound htwo with
    ⟨-, -, -, -, -, hsuppressed, hdepth, hprobes, hrule, hscopes, hcommitted, -, -, -, -, -⟩
  rcases hback with ⟨hcursor, hnodes⟩
  rcases left with ⟨⟩
  simp only [Eval.undoRound, Eval.closeRound] at *
  subst_vars
  rw [hstack]
  exact ⟨_, _, _, _, _, _, _, rfl⟩

/-- How a parse is mirrored by another. -/
structure Manner (V : Type) where
  /-- The machines that the mirrored parse may get to. -/
  fine : Machine V → Prop
  /-- How the switches for repairs go together. -/
  switched : Bool → Bool → Prop
  /-- Whether the notes of refused repairs are mirrored. -/
  noted : Prop
  /-- What is known of the memo of the mirrored parse. -/
  sound : Memo → Prop

/-- Two runs may be compared from here on. -/
structure Manner.Ready (manner : Manner V) (env : Env V) (m n : Machine V) : Prop where
  valid : m.Valid env
  agrees : m.Agrees n
  switched : manner.switched m.mayInsert n.mayInsert
  sound : manner.sound m.memo

/-- Two runs have been compared: where they were and where they are now. -/
structure Manner.Along (manner : Manner V) (m n l l' : Machine V) : Prop where
  agrees : l.Agrees l'
  notes : manner.noted →
    ∃ refused, l.wouldInsert = (m.wouldInsert || refused) ∧
      l'.wouldInsert = (n.wouldInsert || refused)
  sound : manner.sound l.memo

/-- Two outcomes are alike: the verdicts are the same, and so are the repairs if the parse
was aborted; otherwise the runs compare. -/
inductive Manner.Alike (manner : Manner V) (m n : Machine V) :
    Verdict × Machine V → Verdict × Machine V → Prop
  | matched {l l' : Machine V} (halong : manner.Along m n l l') :
      Manner.Alike manner m n (.matched, l) (.matched, l')
  | mismatched {l l' : Machine V} (halong : manner.Along m n l l') :
      Manner.Alike manner m n (.mismatched, l) (.mismatched, l')
  | aborted {error : ParseError} {l l' : Machine V} (hgaps : l'.gaps = l.gaps) :
      Manner.Alike manner m n (.aborted error, l) (.aborted error, l')

/-- An outcome is mirrored: at another machine the task has one that is alike. -/
def Manner.Mirrors (manner : Manner V) (env : Env V) (task : Task V) (m n : Machine V)
    (o : Verdict × Machine V) : Prop :=
  ∃ o', Settles env task n o' ∧ manner.Alike m n o o'

/-- What two parses have to have in common for the one to mirror the other.  The second
one remembers nothing. -/
structure Reflects (env₁ env₂ : Env V) (allows : Action V → Prop) (manner : Manner V) :
    Prop where
  grammar_eq : env₂.grammar = env₁.grammar
  source_eq : env₂.source = env₁.source
  memo_off : env₂.settings.memoization = false
  /-- Where the parse may get to, it may have come from. -/
  fine_of_grows {m l : Machine V} : m.Grows env₁ l → manner.fine l → manner.fine m
  missing {m n : Machine V} (e : Expr V) : manner.Ready env₁ m n →
    manner.fine (Eval.missing env₁ e m).2 →
    manner.Alike m n (Eval.missing env₁ e m) (Eval.missing env₂ e n)
  action_eq {action : Action V} (span : Span) (synthetic : Bool) : allows action →
    action ⟨env₂.source.text, span, synthetic, env₂.pass.isRepair⟩ =
      action ⟨env₁.source.text, span, synthetic, env₁.pass.isRepair⟩
  hit {id : RuleId} {definition : Rule V} {refused : Bool} {m n : Machine V} :
    env₁.grammar.rule? id = some definition → Eval.known? env₁ id definition m = some refused →
    manner.Ready env₁ m n →
    manner.Mirrors env₂ (.call id) m n (.mismatched, Eval.knownMismatch env₁ id refused m)
  remember {id : RuleId} {definition : Rule V} {m n inside inside' : Machine V} :
    env₁.grammar.rule? id = some definition → manner.Ready env₁ m n →
    Settles env₂ (.expr definition.body) (Eval.enterRule id definition n) (.mismatched, inside') →
    manner.Along (Eval.enterRule id definition m) (Eval.enterRule id definition n) inside inside' →
    manner.sound (Eval.remember env₁ (Eval.memoKey? env₁ id definition m) inside.wouldInsert m
      { Eval.leaveRule definition m inside with nodes := m.nodes }).memo
  choice_once {items : List (Expr V)} {m n : Machine V} {o : Verdict × Machine V} :
    Eval.takesTwoRounds env₁ m = false → manner.Ready env₁ m n → manner.fine o.2 →
    (∀ n', manner.Ready env₁ m n' → manner.Mirrors env₂ (.alternatives items) m n' o) →
    manner.Mirrors env₂ (.expr (.choice items)) m n (Eval.rewinding (fun _ => o) m)
  choice_first {items : List (Expr V)} {m n : Machine V} {o : Verdict × Machine V} :
    Eval.takesTwoRounds env₁ m = true → manner.Ready env₁ m n →
    manner.fine (Eval.keepRound m o.2) → ¬ (o.1 = .mismatched ∧ o.2.wouldInsert = true) →
    (∀ n', manner.Ready env₁ (Eval.openRound m) n' → manner.fine o.2 →
      manner.Mirrors env₂ (.alternatives items) (Eval.openRound m) n' o) →
    manner.Mirrors env₂ (.expr (.choice items)) m n
      (Eval.rewinding (fun _ => (o.1, Eval.keepRound m o.2)) m)
  choice_second {items : List (Expr V)} {m n left : Machine V} {o : Verdict × Machine V} :
    Eval.takesTwoRounds env₁ m = true → manner.Ready env₁ m n → manner.fine o.2 →
    m.Agrees (Eval.undoRound m left) → left.wouldInsert = true →
    (∀ n', manner.Ready env₁ (Eval.openRound m) n' → manner.fine left →
      manner.Mirrors env₂ (.alternatives items) (Eval.openRound m) n' (.mismatched, left)) →
    (∀ n', manner.Ready env₁ (Eval.undoRound m left) n' →
      manner.Mirrors env₂ (.alternatives items) (Eval.undoRound m left) n' o) →
    manner.Mirrors env₂ (.expr (.choice items)) m n (Eval.rewinding (fun _ => o) m)

variable {env env₁ env₂ : Env V} {allows : Action V → Prop} {manner : Manner V}
variable {m n l l' k k' left : Machine V} {o o' : Verdict × Machine V} {task : Task V}

/-! ## Stretches -/

namespace Manner

/-- A stretch behind another; refused repairs of either are noted. -/
theorem Along.trans (h : manner.Along m n l l') (hlast : manner.Along l l' k k') :
    manner.Along m n k k' where
  agrees := hlast.agrees
  notes hnoted := by
    rcases h.notes hnoted with ⟨refused, hl, hl'⟩
    rcases hlast.notes hnoted with ⟨refused', hk, hk'⟩
    exact ⟨refused || refused', by rw [hk, hl, Bool.or_assoc], by rw [hk', hl', Bool.or_assoc]⟩
  sound := hlast.sound

/-- What is recorded is not compared. -/
theorem Along.recordFailure (h : manner.Along m n l l') (env₁ env₂ : Env V) (offset offset' : Nat)
    (expected expected' : Expected V) :
    manner.Along m n (l.recordFailure env₁ offset expected)
      (l'.recordFailure env₂ offset' expected') := by
  rw [Machine.recordFailure_eq env₁ l, Machine.recordFailure_eq env₂ l']
  refine ⟨?_, h.notes, h.sound⟩
  rcases h.agrees with ⟨_, _, _, _, _, _, _, rfl⟩
  exact ⟨_, _, _, _, _, _, _, rfl⟩

/-- Both machines are changed alike, but not in the switch for repairs or in the memo. -/
theorem Ready.map {f : Machine V → Machine V} (h : manner.Ready env m n)
    (hswitch : ∀ k, (f k).mayInsert = k.mayInsert) (hmemo : ∀ k, (f k).memo = k.memo)
    (hvalid : (f m).Valid env) (hagrees : (f m).Agrees (f n)) : manner.Ready env (f m) (f n) where
  valid := hvalid
  agrees := hagrees
  switched := by
    rw [hswitch, hswitch]
    exact h.switched
  sound := by
    rw [hmemo]
    exact h.sound

/-- The commitment of the surroundings is set for a stretch. -/
theorem Ready.commit (h : manner.Ready env m n) (committed : Bool) :
    manner.Ready env { m with committed := committed } { n with committed := committed } := by
  refine h.map (f := fun k => { k with committed := committed }) (fun _ => rfl) (fun _ => rfl)
    ⟨h.valid.within, h.valid.vars⟩ ?_
  rcases h.agrees with ⟨_, _, _, _, _, _, _, rfl⟩
  exact ⟨_, _, _, _, _, _, _, rfl⟩

/-- Where a comparison begins, nothing has been done or noted yet. -/
theorem Ready.along (h : manner.Ready env m n) : manner.Along m n m n where
  agrees := h.agrees
  notes _ := ⟨false, by rw [Bool.or_false], by rw [Bool.or_false]⟩
  sound := h.sound

/-- A comparison goes on inside of a lookahead. -/
theorem Ready.openProbe (h : manner.Ready env m n) :
    manner.Ready env (Eval.openProbe m) (Eval.openProbe n) := by
  refine h.map (fun _ => rfl) (fun _ => rfl) ⟨h.valid.within, h.valid.vars⟩ ?_
  rcases h.agrees with ⟨_, _, _, _, _, _, _, rfl⟩
  exact ⟨_, _, _, _, _, _, _, rfl⟩

/-- A comparison goes on under a label. -/
theorem Ready.openLabel (h : manner.Ready env m n) (name : String) :
    manner.Ready env (Eval.openLabel name m) (Eval.openLabel name n) := by
  refine h.map (fun _ => rfl) (fun _ => rfl) ⟨h.valid.within, h.valid.vars⟩ ?_
  rcases h.agrees with ⟨_, _, _, _, _, _, _, rfl⟩
  exact ⟨_, _, _, _, _, _, _, rfl⟩

/-- A comparison goes on inside of a rule. -/
theorem Ready.enterRule (h : manner.Ready env m n) (id : RuleId) (definition : Rule V) :
    manner.Ready env (Eval.enterRule id definition m) (Eval.enterRule id definition n) := by
  refine h.map (fun _ => rfl) (fun _ => rfl) ⟨h.valid.within, m.vars.valid_enter⟩ ?_
  rcases h.agrees with ⟨_, _, _, _, _, _, _, rfl⟩
  exact ⟨_, _, _, _, _, _, _, rfl⟩

/-- Counts and events are not compared. -/
theorem Ready.countMiss (h : manner.Ready env m n) (definition : Rule V) :
    manner.Ready env (Eval.countMiss env definition m) n := by
  rw [Eval.countMiss_eq]
  refine ⟨⟨h.valid.within, h.valid.vars⟩, ?_, h.switched, h.sound⟩
  rcases h.agrees with ⟨_, _, _, _, _, _, _, rfl⟩
  exact ⟨_, _, _, _, _, _, _, rfl⟩

/-- A comparison goes on with the next alternative. -/
theorem Ready.backtrack (h : manner.Ready env m n) :
    manner.Ready env m.backtrack n.backtrack := by
  refine h.map (fun _ => rfl) (fun _ => rfl) ⟨h.valid.within, h.valid.vars⟩ ?_
  rcases h.agrees with ⟨_, _, _, _, _, _, _, rfl⟩
  exact ⟨_, _, _, _, _, _, _, rfl⟩

/-- The comparison goes on after a stretch. -/
theorem Ready.next (h : manner.Ready env₁ m n) (hframe : m.Frame env₁ l)
    (hgrows : n.Grows env₂ l') (halong : manner.Along m n l l') : manner.Ready env₁ l l' where
  valid := hframe.valid
  agrees := halong.agrees
  switched := by
    rw [hframe.mayInsert, hgrows.mayInsert]
    exact h.switched
  sound := halong.sound

/-! ## Ways of combining -/

namespace Alike

/-- Outcomes that are alike have the same verdict. -/
theorem verdict_eq (h : manner.Alike m n o o') : o'.1 = o.1 := by
  cases h <;> rfl

/-- Outcomes that are alike have stood in for the same terminals, however the parse ended. -/
theorem gaps_eq (h : manner.Alike m n o o') : o'.2.gaps = o.2.gaps := by
  cases h with
  | matched halong => exact halong.agrees.gaps_eq
  | mismatched halong => exact halong.agrees.gaps_eq
  | aborted hgaps => exact hgaps

/-- Outcomes that are alike leave machines that agree, unless the parse was aborted. -/
theorem agrees (h : manner.Alike m n o o') (hends : ∀ error, o.1 ≠ .aborted error) :
    o.2.Agrees o'.2 := by
  cases h with
  | matched halong => exact halong.agrees
  | mismatched halong => exact halong.agrees
  | @aborted error l l' hgaps => exact absurd rfl (hends error)

/-- Only a match is like a match. -/
theorem exists_matched (h : manner.Alike m n (.matched, l) o') :
    ∃ l', o' = (.matched, l') ∧ manner.Along m n l l' := by
  cases h with
  | @matched _ l' halong => exact ⟨l', rfl, halong⟩

/-- Only a mismatch is like a mismatch. -/
theorem exists_mismatched (h : manner.Alike m n (.mismatched, l) o') :
    ∃ l', o' = (.mismatched, l') ∧ manner.Along m n l l' := by
  cases h with
  | @mismatched _ l' halong => exact ⟨l', rfl, halong⟩

/-- Outcomes that are alike from one pair of machines are so from another, if stretches carry
over. -/
theorem imp {k k' : Machine V} (himp : ∀ l l', manner.Along m n l l' → manner.Along k k' l l')
    (h : manner.Alike m n o o') : manner.Alike k k' o o' := by
  cases h with
  | matched halong => exact .matched (himp _ _ halong)
  | mismatched halong => exact .mismatched (himp _ _ halong)
  | aborted hgaps => exact .aborted hgaps

/-- An outcome behind a stretch. -/
theorem after (h : manner.Along m n l l') (hlast : manner.Alike l l' o o') :
    manner.Alike m n o o' :=
  hlast.imp fun _ _ => h.trans

/-- What the commitment was at the start is not compared. -/
theorem uncommit {committed committed' : Bool}
    (h : manner.Alike { m with committed := committed } { n with committed := committed' } o o') :
    manner.Alike m n o o' := by
  refine imp ?_ h
  exact fun _ _ halong => ⟨halong.agrees, halong.notes, halong.sound⟩

/-- Outcomes stay alike if both runs go back after a mismatch. -/
theorem rewinding {eval eval' : Eval V} (hagrees : m.Agrees n)
    (h : manner.Alike m n (eval m) (eval' n)) :
    manner.Alike m n (Eval.rewinding eval m) (Eval.rewinding eval' n) := by
  unfold Eval.rewinding
  generalize eval m = o at h ⊢
  generalize eval' n = o' at h ⊢
  cases h with
  | matched halong => exact .matched halong
  | mismatched halong =>
      refine .mismatched ⟨?_, halong.notes, halong.sound⟩
      rcases hagrees with ⟨_, _, _, _, _, _, _, rfl⟩
      rcases halong.agrees with ⟨_, _, _, _, _, _, _, rfl⟩
      exact ⟨_, _, _, _, _, _, _, rfl⟩
  | aborted hgaps => exact .aborted hgaps

/-- Outcomes stay alike if both runs get their commitment back. -/
theorem keepingCommitment (hagrees : m.Agrees n) (h : manner.Alike m n o o') :
    manner.Alike m n (Eval.keepingCommitment (fun _ => o) m)
      (Eval.keepingCommitment (fun _ => o') n) := by
  have hcommit : ∀ l l', manner.Along m n l l' →
      manner.Along m n { l with committed := m.committed }
        { l' with committed := n.committed } := by
    intro l l' halong
    refine ⟨?_, halong.notes, halong.sound⟩
    rcases hagrees with ⟨_, _, _, _, _, _, _, rfl⟩
    rcases halong.agrees with ⟨_, _, _, _, _, _, _, rfl⟩
    exact ⟨_, _, _, _, _, _, _, rfl⟩
  cases h with
  | matched halong => exact .matched (hcommit _ _ halong)
  | mismatched halong => exact .mismatched (hcommit _ _ halong)
  | aborted hgaps => exact .aborted hgaps

/-- Outcomes stay alike if a mismatch is accepted as a match. -/
theorem accepted (h : manner.Alike m n o o') :
    manner.Alike m n (Eval.accepted o) (Eval.accepted o') := by
  cases h with
  | matched halong => exact .matched halong
  | mismatched halong => exact .matched halong
  | aborted hgaps => exact .aborted hgaps

/-- Outcomes of a lookahead are alike if those of its body are: both stacks are back as they were.
-/
theorem ahead (expectMatch : Bool) (hagrees : m.Agrees n)
    (hframe : Eval.Leaves ((Eval.openProbe m).Frame env₁) o)
    (hframe' : Eval.Leaves ((Eval.openProbe n).Frame env₂) o')
    (h : manner.Alike (Eval.openProbe m) (Eval.openProbe n) o o') :
    manner.Alike m n (Eval.ahead expectMatch (fun _ => o) m)
      (Eval.ahead expectMatch (fun _ => o') n) := by
  have hclose : ∀ l l', manner.Along (Eval.openProbe m) (Eval.openProbe n) l l' →
      (Eval.openProbe m).Frame env₁ l → (Eval.openProbe n).Frame env₂ l' →
      manner.Along m n (Eval.closeProbe m l) (Eval.closeProbe n l') := by
    intro l l' halong hl hl'
    refine ⟨?_, halong.notes, halong.sound⟩
    have hstack : l.stack.rollback = m.stack := hl.tracks.rollback_eq
    have hstack' : l'.stack.rollback = n.stack := hl'.tracks.rollback_eq
    simp only [Eval.closeProbe, hstack, hstack']
    rcases hagrees with ⟨_, _, _, _, _, _, _, rfl⟩
    rcases halong.agrees with ⟨_, _, _, _, _, _, _, rfl⟩
    exact ⟨_, _, _, _, _, _, _, rfl⟩
  cases h with
  | matched halong =>
      have hback := hclose _ _ halong hframe hframe'
      cases expectMatch with
      | true => exact .matched hback
      | false => exact .mismatched hback
  | mismatched halong =>
      have hback := hclose _ _ halong hframe hframe'
      cases expectMatch with
      | true => exact .mismatched hback
      | false => exact .matched hback
  | aborted hgaps => exact .aborted hgaps

/-- Outcomes of a label are alike if those of what it stands around are. -/
theorem labeled (name : String) (hagrees : m.Agrees n)
    (h : manner.Alike (Eval.openLabel name m) (Eval.openLabel name n) o o') :
    manner.Alike m n (Eval.labeled env₁ name (fun _ => o) m)
      (Eval.labeled env₂ name (fun _ => o') n) := by
  rw [Eval.labeled_eq, Eval.labeled_eq]
  rcases hagrees with ⟨_, _, _, _, _, _, _, rfl⟩
  cases h with
  | matched halong =>
      refine .matched ⟨?_, halong.notes, halong.sound⟩
      rcases halong.agrees with ⟨_, _, _, _, _, _, _, rfl⟩
      exact ⟨_, _, _, _, _, _, _, rfl⟩
  | mismatched halong =>
      dsimp only
      rw [Eval.noteFailure_eq env₁, Eval.noteFailure_eq env₂]
      refine .mismatched ⟨?_, halong.notes, halong.sound⟩
      rcases halong.agrees with ⟨_, _, _, _, _, _, _, rfl⟩
      exact ⟨_, _, _, _, _, _, _, rfl⟩
  | aborted hgaps => exact .aborted hgaps

/-- Outcomes of a rule are alike if those of its body are, as long as the memo stays sound. -/
theorem body {id : RuleId} {definition : Rule V} {key? : Option MemoKey} (hagrees : m.Agrees n)
    (hsound : ∀ inside, o = (.mismatched, inside) →
      manner.sound (Eval.remember env₁ key? inside.wouldInsert m
        { Eval.leaveRule definition m inside with nodes := m.nodes }).memo)
    (h : manner.Alike (Eval.enterRule id definition m) (Eval.enterRule id definition n) o o') :
    manner.Alike m n (Eval.body env₁ id definition key? (fun _ => o) m)
      (Eval.body env₂ id definition none (fun _ => o') n) := by
  have hnotes : ∀ l l',
      manner.Along (Eval.enterRule id definition m) (Eval.enterRule id definition n) l l' →
      manner.noted → ∃ refused,
        (Eval.leaveRule definition m l).wouldInsert = (m.wouldInsert || refused) ∧
          (Eval.leaveRule definition n l').wouldInsert = (n.wouldInsert || refused) := by
    intro l l' halong hnoted
    rcases halong.notes hnoted with ⟨refused, hl, hl'⟩
    exact ⟨refused, by simp [Eval.leaveRule, hl, Eval.enterRule, Bool.or_comm],
      by simp [Eval.leaveRule, hl', Eval.enterRule, Bool.or_comm]⟩
  unfold Eval.body
  cases h with
  | matched halong =>
      dsimp only
      rw [Eval.contribute_eq id definition m, Eval.contribute_eq id definition n]
      refine .matched ⟨?_, hnotes _ _ halong, halong.sound⟩
      rcases hagrees with ⟨_, _, _, _, _, _, _, rfl⟩
      rcases halong.agrees with ⟨_, _, _, _, _, _, _, rfl⟩
      unfold Eval.contribute
      split
      next => exact ⟨_, _, _, _, _, _, _, rfl⟩
      next => exact ⟨_, _, _, _, _, _, _, rfl⟩
  | mismatched halong =>
      have hremembered := hsound _ rfl
      dsimp only
      rw [Machine.recordNamed_eq env₁, Machine.recordNamed_eq env₂, Machine.remember_eq env₁]
      refine .mismatched ⟨?_, hnotes _ _ halong, hremembered⟩
      rcases hagrees with ⟨_, _, _, _, _, _, _, rfl⟩
      rcases halong.agrees with ⟨_, _, _, _, _, _, _, rfl⟩
      exact ⟨_, _, _, _, _, _, _, rfl⟩
  | aborted hgaps => exact .aborted hgaps

/-- The changes of a round are kept on both sides. -/
theorem keepRound (h : manner.Alike (Eval.openRound m) (Eval.openRound n) o o') :
    manner.Alike m n (o.1, Eval.keepRound m o.2) (o'.1, Eval.keepRound n o'.2) := by
  have hkeep : ∀ l l', manner.Along (Eval.openRound m) (Eval.openRound n) l l' →
      manner.Along m n (Eval.keepRound m l) (Eval.keepRound n l') := by
    intro l l' halong
    refine ⟨?_, fun _ => ⟨false, (Bool.or_false _).symm, (Bool.or_false _).symm⟩, halong.sound⟩
    exact (Machine.agrees_keepRound m l).symm.trans
      (halong.agrees.trans (Machine.agrees_keepRound n l'))
  cases h with
  | matched halong => exact .matched (hkeep _ _ halong)
  | mismatched halong => exact .mismatched (hkeep _ _ halong)
  | aborted hgaps => exact .aborted hgaps

end Alike

/-- A match is mirrored by a match. -/
theorem Mirrors.exists_matched (h : manner.Mirrors env task m n (.matched, l)) :
    ∃ l', Settles env task n (.matched, l') ∧ manner.Along m n l l' := by
  rcases h with ⟨o', hsettles, halike⟩
  rcases halike.exists_matched with ⟨l', rfl, halong⟩
  exact ⟨l', hsettles, halong⟩

/-- A mismatch is mirrored by a mismatch. -/
theorem Mirrors.exists_mismatched (h : manner.Mirrors env task m n (.mismatched, l)) :
    ∃ l', Settles env task n (.mismatched, l') ∧ manner.Along m n l l' := by
  rcases h with ⟨o', hsettles, halike⟩
  rcases halike.exists_mismatched with ⟨l', rfl, halong⟩
  exact ⟨l', hsettles, halong⟩

end Manner

/-! ## Choices -/

namespace Manner

variable {items : List (Expr V)}

/-- A single round. -/
theorem Mirrors.choice_once (honce : Eval.takesTwoRounds env₂ n = false) (hagrees : m.Agrees n)
    (h : manner.Mirrors env₂ (.alternatives items) m n o) :
    manner.Mirrors env₂ (.expr (.choice items)) m n (Eval.rewinding (fun _ => o) m) := by
  rcases h with ⟨o', hsettles, halike⟩
  exact ⟨_, hsettles.of fun hmade => ⟨_, .choice_once honce hmade⟩, halike.rewinding hagrees⟩

end Manner

/-! ## Single steps -/

namespace Reflects

variable (law : Reflects env₁ env₂ allows manner)

include law

/-- Only the part that growth is about decides whether a machine may be got to. -/
theorem fine_congr (hrepairs : l.repairs = m.repairs) (h : manner.fine m) : manner.fine l :=
  law.fine_of_grows ((Machine.Grows.refl m).congr hrepairs rfl) h

/-- Both runs have the same number of bytes in front of them. -/
theorem remaining_eq (h : m.Agrees n) : Eval.remaining env₂ n = Eval.remaining env₁ m := by
  rw [Eval.remaining, Eval.remaining, law.source_eq, h.offset_eq]

/-- Both repetitions stop together. -/
theorem ends (hagrees : m.Agrees n) (halike : manner.Alike l l' o o')
    (hends : o.1 = .matched → ¬ Eval.remaining env₁ o.2 < Eval.remaining env₁ m) :
    o'.1 = .matched → ¬ Eval.remaining env₂ o'.2 < Eval.remaining env₂ n := by
  cases halike with
  | matched halong =>
      rw [law.remaining_eq halong.agrees, law.remaining_eq hagrees]
      exact hends
  | mismatched halong => nofun
  | aborted hgaps => nofun

/-- The second machine of a comparison is valid as well. -/
theorem valid (h : manner.Ready env₁ m n) : n.Valid env₂ := by
  have hvalid := h.agrees.valid h.valid
  exact ⟨law.source_eq ▸ hvalid.within, hvalid.vars⟩

/-- If the machine behind a rewind may be got to, so may the one in front of it. -/
theorem fine_rewinding {eval : Eval V} (h : manner.fine (Eval.rewinding eval m).2) :
    manner.fine (eval m).2 := by
  rcases Eval.exists_snd_rewinding eval m with ⟨_, _, hleft⟩
  exact law.fine_congr (congrArg Machine.repairs hleft).symm h

/-- So it is for giving the commitment back. -/
theorem fine_keepingCommitment {eval : Eval V}
    (h : manner.fine (Eval.rewinding (Eval.keepingCommitment eval) m).2) :
    manner.fine (eval m).2 :=
  law.fine_congr (show (eval m).2.repairs = (Eval.keepingCommitment eval m).2.repairs from rfl)
    (law.fine_rewinding h)

/-- So it is for closing a lookahead. -/
theorem fine_ahead {expectMatch : Bool} {eval : Eval V}
    (h : manner.fine (Eval.rewinding (Eval.ahead expectMatch eval) m).2) :
    manner.fine (eval (Eval.openProbe m)).2 :=
  law.fine_congr
    (show (eval (Eval.openProbe m)).2.repairs = (Eval.ahead expectMatch eval m).2.repairs from rfl)
    (law.fine_rewinding h)

/-- A terminal does alike in both parses. -/
theorem terminal (e : Expr V) (hready : manner.Ready env₁ m n)
    (hfine : manner.fine (Eval.terminal env₁ e m).2) :
    manner.Alike m n (Eval.terminal env₁ e m) (Eval.terminal env₂ e n) := by
  have hcursor : n.cursor = m.cursor := by
    rcases hready.agrees with ⟨_, _, _, _, _, _, _, rfl⟩
    rfl
  have hmissing := law.missing e hready
  unfold Eval.terminal at hfine ⊢
  rw [hcursor]
  split
  next cursor hconsume =>
      refine .matched ⟨?_, hready.along.notes, hready.sound⟩
      rcases hready.agrees with ⟨_, _, _, _, _, _, _, rfl⟩
      exact ⟨_, _, _, _, _, _, _, rfl⟩
  next hconsume =>
      rw [hconsume] at hfine
      exact hmissing hfine

/-- An allowed action does alike in both parses: it cannot see the journals. -/
theorem runAction {action : Action V} (hallows : allows action) (span : Span) (synthetic : Bool)
    (hready : manner.Ready env₁ m n) :
    manner.Alike m n (Eval.runAction env₁ action span synthetic m)
      (Eval.runAction env₂ action span synthetic n) := by
  have hsound := hready.sound
  have hnotes := hready.along.notes
  rcases hready.agrees with ⟨journals, _, _, _, _, _, _, rfl⟩
  unfold Eval.runAction
  dsimp only
  rw [law.action_eq span synthetic hallows, law.source_eq, law.grammar_eq]
  rcases Workspace.run_rejournal
    (action ⟨env₁.source.text, span, synthetic, env₁.pass.isRepair⟩) ⟨m.stack, m.vars⟩ journals
    with ⟨journals', hrun⟩
  rw [Workspace.rejournal] at hrun
  rw [hrun]
  generalize (action _).run ⟨m.stack, m.vars⟩ = result
  rcases result with ⟨error | _ | _, space⟩
  · exact .aborted rfl
  · exact .mismatched ⟨⟨_, _, _, _, _, _, _, rfl⟩, hnotes, hsound⟩
  · exact .matched ⟨⟨_, _, _, _, _, _, _, rfl⟩, hnotes, hsound⟩

/-! ## Tasks -/

/-- Whatever was derived is mirrored, unless the limit of nested invocations was run
into. -/
theorem mirrors (hfree : ∀ action, allows action → action.VariableFree)
    (hgrammar : env₁.grammar.Admits allows) {a : Nat} {made : List StandIn}
    (h : Derives env₁ a task m o made) (htask : task.Admits allows)
    (hlimited : o.1.limited = false) (hfine : manner.fine o.2) (hready : manner.Ready env₁ m n) :
    manner.Mirrors env₂ task m n o := by
  induction h generalizing n with
  | @terminal a e m hterminal =>
      have hfine : manner.fine (Eval.terminal env₁ e m).2 := law.fine_rewinding hfine
      exact ⟨_, .of_forall fun _ => ⟨_, .terminal hterminal⟩,
        (law.terminal e hready hfine).rewinding hready.agrees⟩
  | @action a action m =>
      have halike : manner.Alike m n (Eval.runAction env₁ action (Span.emptyAt m.offset) false m)
          (Eval.runAction env₂ action (Span.emptyAt n.offset) false n) := by
        rw [hready.agrees.offset_eq]
        exact law.runAction (Expr.Admits.allows htask) _ false hready
      exact ⟨_, .of_forall fun _ => ⟨_, .action⟩, halike.rewinding hready.agrees⟩
  | @seq a items m o made hitems ih =>
      have hfine : manner.fine o.2 := law.fine_keepingCommitment hfine
      rcases ih (fun _ hpart => Expr.Admits.part htask hpart) (by simpa using hlimited) hfine hready
        with ⟨o', hsettles, halike⟩
      rw [← hready.agrees.offset_eq, ← hready.agrees.committed_eq] at hsettles
      exact ⟨_, hsettles.of fun hmade => ⟨_, .seq hmade⟩,
        (halike.keepingCommitment hready.agrees).rewinding hready.agrees⟩
  | done => exact ⟨_, .of_forall fun _ => ⟨_, .done⟩, .matched hready.along⟩
  | @act_next a start inherited action items previous synthetic m left o made hact hrest ih =>
      have hallows : allows action := (htask _ List.mem_cons_self).allows
      have halike := law.runAction hallows previous synthetic hready
      rw [hact] at halike
      rcases halike.exists_matched with ⟨left', hact', halong⟩
      have hgrows' : n.Grows env₂ left' := by
        have hgrows := Eval.grows_runAction env₂ action previous synthetic n
        rwa [hact'] at hgrows
      have hnext := hready.next (Eval.frame_runAction hready.valid hact) hgrows' halong
      rcases ih (List.forall_mem_cons.1 htask).2 hlimited hfine hnext with ⟨o', hsettles, halike'⟩
      exact ⟨o', hsettles.of fun hmade => ⟨_, .act_next hact' hmade⟩,
        halike'.after halong⟩
  | @act_last a start inherited action items previous synthetic m hends =>
      have hallows : allows action := (htask _ List.mem_cons_self).allows
      have halike := law.runAction hallows previous synthetic hready
      have hends' : (Eval.runAction env₂ action previous synthetic n).1 ≠ .matched := by
        rwa [halike.verdict_eq]
      exact ⟨_, .of_forall fun _ => ⟨_, .act_last hends'⟩, halike⟩
  | @part_next a start inherited item items previous synthetic m left o made later hitem hpart
      hrest ihpart ihrest =>
      have hagrees := hready.agrees
      have hbegin := hready.commit (inherited || decide (start < m.offset))
      rcases (ihpart (htask _ List.mem_cons_self) rfl (law.fine_of_grows hrest.grows hfine)
        hbegin).exists_matched with ⟨left', hsettles, halong⟩
      have hnext := hbegin.next (hpart.framed hbegin.valid) hsettles.grows halong
      rcases ihrest (List.forall_mem_cons.1 htask).2 hlimited hfine hnext
        with ⟨o', hsettles', halike⟩
      rw [← hagrees.offset_eq] at hsettles
      rw [← hagrees.offset_eq, ← hnext.agrees.offset_eq, ← hagrees.inserted_eq,
        ← hnext.agrees.inserted_eq] at hsettles'
      exact ⟨o', hsettles.of₂ hsettles' fun hmade hmade' => ⟨_, .part_next hitem hmade hmade'⟩,
        halike.after ⟨halong.agrees, halong.notes, halong.sound⟩⟩
  | @part_last a start inherited item items previous synthetic m o made hitem hpart hends ih =>
      have hbegin := hready.commit (inherited || decide (start < m.offset))
      rcases ih (htask _ List.mem_cons_self) hlimited hfine hbegin with ⟨o', hsettles, halike⟩
      rw [← hready.agrees.offset_eq] at hsettles
      have hends' : o'.1 ≠ .matched := by rwa [halike.verdict_eq]
      exact ⟨o', hsettles.of fun hmade => ⟨_, .part_last hitem hmade hends'⟩,
        halike.uncommit⟩
  | @choice_once a items m o made honce hround ih =>
      have hfine : manner.fine o.2 := law.fine_rewinding hfine
      exact law.choice_once honce hready hfine fun n' hready' =>
        ih (fun _ hpart => Expr.Admits.part htask hpart) (by simpa using hlimited) hfine hready'
  | @choice_first a items m o made htwo hround hends ih =>
      exact law.choice_first htwo hready (law.fine_rewinding hfine) hends
        fun n' hready' hfine' =>
          ih (fun _ hpart => Expr.Admits.part htask hpart) (by simpa using hlimited) hfine' hready'
  | @choice_second a items m left o made later htwo hround hnoted hagain ihround ihagain =>
      have hparts : Task.Admits allows (.alternatives items) :=
        fun _ hpart => Expr.Admits.part htask hpart
      have hfine : manner.fine o.2 := law.fine_rewinding hfine
      have hvars : left.vars = m.vars :=
        hround.vars_eq (hgrammar.imp hfree) fun part hpart => (hparts part hpart).imp hfree
      exact law.choice_second htwo hready hfine
        (Machine.agrees_undoRound hready.valid htwo hround hvars) hnoted
        (fun n' hready' hfine' => ihround hparts rfl hfine' hready')
        fun n' hready' => ihagain hparts (by simpa using hlimited) hfine hready'
  | no_alternative => exact ⟨_, .of_forall fun _ => ⟨_, .no_alternative⟩, .mismatched hready.along⟩
  | @alternative_next a item items m left o made later hmore hfirst hrest ihfirst ihrest =>
      have hback : left.Grows env₁ o.2 := hrest.grows.congr rfl rfl
      rcases (ihfirst (htask _ List.mem_cons_self) rfl (law.fine_of_grows hback hfine)
        hready).exists_mismatched with ⟨left', hsettles, halong⟩
      have hnext : manner.Ready env₁ left.backtrack left'.backtrack :=
        (hready.next (hfirst.framed hready.valid) hsettles.grows halong).backtrack
      rcases ihrest (List.forall_mem_cons.1 htask).2 hlimited hfine hnext
        with ⟨o', hsettles', halike⟩
      exact ⟨o', hsettles.of₂ hsettles' fun hmade hmade' =>
        ⟨_, .alternative_next hmore hmade hmade'⟩,
        halike.after ⟨hnext.agrees, halong.notes, halong.sound⟩⟩
  | @alternative_last a item items m o made hends hfirst ih =>
      rcases ih (htask _ List.mem_cons_self) hlimited hfine hready with ⟨o', hsettles, halike⟩
      have hends' : o'.1 = .mismatched → items = [] := by rwa [halike.verdict_eq]
      exact ⟨o', hsettles.of fun hmade => ⟨_, .alternative_last hends' hmade⟩, halike⟩
  | @star a body m o made hmany ih =>
      rcases ih (Expr.Admits.part htask List.mem_cons_self) (by simpa using hlimited)
        (law.fine_keepingCommitment hfine) hready with ⟨o', hsettles, halike⟩
      exact ⟨_, hsettles.of fun hmade => ⟨_, .star hmade⟩,
        (halike.keepingCommitment hready.agrees).rewinding hready.agrees⟩
  | @many_next a body m left o made later hfirst hless hrest ihfirst ihrest =>
      have hbegin := hready.commit false
      rcases (ihfirst htask rfl (law.fine_of_grows hrest.grows hfine) hbegin).exists_matched
        with ⟨left', hsettles, halong⟩
      have hnext := hbegin.next (hfirst.framed hbegin.valid) hsettles.grows halong
      rcases ihrest htask hlimited hfine hnext with ⟨o', hsettles', halike⟩
      have hless' : Eval.remaining env₂ left' < Eval.remaining env₂ n := by
        rwa [law.remaining_eq hnext.agrees, law.remaining_eq hready.agrees]
      exact ⟨o', hsettles.of₂ hsettles' fun hmade hmade' => ⟨_, .many_next hmade hless' hmade'⟩,
        halike.after ⟨halong.agrees, halong.notes, halong.sound⟩⟩
  | @many_last a body m o made hfirst hends ih =>
      rw [Eval.limited_accepted] at hlimited
      rw [Eval.snd_accepted] at hfine
      rcases ih htask hlimited hfine (hready.commit false) with ⟨o', hsettles, halike⟩
      have hends' := law.ends hready.agrees halike hends
      exact ⟨_, hsettles.of fun hmade => ⟨_, .many_last hmade hends'⟩,
        halike.uncommit.accepted⟩
  | @plus_next a body m left o made later hfirst hless hrest ihfirst ihrest =>
      have hbody : body.Admits allows := Expr.Admits.part htask List.mem_cons_self
      have hfine : manner.fine o.2 := law.fine_keepingCommitment hfine
      rcases (ihfirst hbody rfl (law.fine_of_grows hrest.grows hfine) hready).exists_matched
        with ⟨left', hsettles, halong⟩
      have hnext := hready.next (hfirst.framed hready.valid) hsettles.grows halong
      rcases ihrest hbody (by simpa using hlimited) hfine hnext with ⟨o', hsettles', halike⟩
      have hless' : Eval.remaining env₂ left' < Eval.remaining env₂ n := by
        rwa [law.remaining_eq hnext.agrees, law.remaining_eq hready.agrees]
      exact ⟨_, hsettles.of₂ hsettles' fun hmade hmade' => ⟨_, .plus_next hmade hless' hmade'⟩,
        ((halike.after halong).keepingCommitment hready.agrees).rewinding hready.agrees⟩
  | @plus_last a body m o made hfirst hends ih =>
      rcases ih (Expr.Admits.part htask List.mem_cons_self) (by simpa using hlimited)
        (law.fine_keepingCommitment hfine) hready with ⟨o', hsettles, halike⟩
      have hends' := law.ends hready.agrees halike hends
      exact ⟨_, hsettles.of fun hmade => ⟨_, .plus_last hmade hends'⟩,
        (halike.keepingCommitment hready.agrees).rewinding hready.agrees⟩
  | @optional a body m o made hbody ih =>
      rw [Eval.optional_eq] at hlimited hfine ⊢
      have hfine : manner.fine o.2 := by
        have haccepted : manner.fine (Eval.accepted o).2 := law.fine_keepingCommitment hfine
        rwa [Eval.snd_accepted] at haccepted
      rcases ih (Expr.Admits.part htask List.mem_cons_self) (by simpa using hlimited) hfine
        (hready.commit false) with ⟨o', hsettles, halike⟩
      refine ⟨_, hsettles.of fun hmade => ⟨_, .optional hmade⟩, ?_⟩
      rw [Eval.optional_eq]
      exact (halike.uncommit.accepted.keepingCommitment hready.agrees).rewinding hready.agrees
  | @notAhead a body m o made hbody ih =>
      have hopen := hready.openProbe
      rcases ih (Expr.Admits.part htask List.mem_cons_self) (by simpa using hlimited)
        (law.fine_ahead hfine) hopen with ⟨o', hsettles, halike⟩
      rcases hsettles.exists_derives with ⟨_, _, hbody'⟩
      exact ⟨_, hsettles.of fun hmade => ⟨_, .notAhead hmade⟩,
        (halike.ahead false hready.agrees (hbody.framed hopen.valid)
          (hbody'.framed (law.valid hopen))).rewinding hready.agrees⟩
  | @ahead a body m o made hbody ih =>
      have hopen := hready.openProbe
      rcases ih (Expr.Admits.part htask List.mem_cons_self) (by simpa using hlimited)
        (law.fine_ahead hfine) hopen with ⟨o', hsettles, halike⟩
      rcases hsettles.exists_derives with ⟨_, _, hbody'⟩
      exact ⟨_, hsettles.of fun hmade => ⟨_, .ahead hmade⟩,
        (halike.ahead true hready.agrees (hbody.framed hopen.valid)
          (hbody'.framed (law.valid hopen))).rewinding hready.agrees⟩
  | @label a name body m o made hbody ih =>
      have hfine : manner.fine o.2 := by
        rcases Eval.exists_snd_labeled env₁ name (fun _ => o) m with ⟨_, _, hleft⟩
        exact law.fine_congr (congrArg Machine.repairs hleft).symm (law.fine_rewinding hfine)
      rcases ih (Expr.Admits.part htask List.mem_cons_self) (by simpa using hlimited) hfine
        (hready.openLabel name) with ⟨o', hsettles, halike⟩
      exact ⟨_, hsettles.of fun hmade => ⟨_, .label hmade⟩,
        (halike.labeled name hready.agrees).rewinding hready.agrees⟩
  | @rule a id m o made hcall ih =>
      rcases ih trivial (by simpa using hlimited) (law.fine_rewinding hfine) hready
        with ⟨o', hsettles, halike⟩
      exact ⟨_, hsettles.of fun hmade => ⟨_, .rule hmade⟩, halike.rewinding hready.agrees⟩
  | @unknown a id m hnone =>
      have hnone' : env₂.grammar.rule? id = none := by rwa [law.grammar_eq]
      exact ⟨_, .of_forall fun _ => ⟨_, .unknown hnone'⟩, .aborted hready.agrees.gaps_eq⟩
  | limit hdefinition => cases hlimited
  | hit hdefinition hknown => exact law.hit hdefinition hknown hready
  | @body a id definition m o made hdefinition hknown hbody ih =>
      have hcount := hready.countMiss definition
      have hfine : manner.fine o.2 := by
        rcases Eval.exists_snd_body env₁ id definition (Eval.memoKey? env₁ id definition m)
          (fun _ => o) (Eval.countMiss env₁ definition m) with ⟨_, _, _, _, hleft⟩
        exact law.fine_of_grows (Machine.grows_leaveRule definition _ o.2)
          (law.fine_congr (congrArg Machine.repairs hleft).symm hfine)
      rcases ih (hgrammar id definition hdefinition) (by simpa using hlimited) hfine
        (hcount.enterRule id definition) with ⟨o', hsettles, halike⟩
      have hdefinition' : env₂.grammar.rule? id = some definition := by rwa [law.grammar_eq]
      have hsettles' := Settles.body hdefinition' (Eval.known?_eq_none law.memo_off id definition n)
        ((Eval.countMiss_of_off law.memo_off definition n).symm ▸ hsettles)
      rw [Eval.memoKey?_eq_none law.memo_off, Eval.countMiss_of_off law.memo_off] at hsettles'
      have hmiss : manner.Along m n (Eval.countMiss env₁ definition m) n := by
        refine ⟨hcount.agrees, fun _ => ⟨false, ?_, (Bool.or_false _).symm⟩, hcount.sound⟩
        rw [Eval.countMiss_eq, Bool.or_false]
      refine ⟨_, hsettles', (halike.body hcount.agrees fun inside hinside => ?_).after hmiss⟩
      subst hinside
      rcases halike.exists_mismatched with ⟨inside', rfl, halong⟩
      have hremembered := law.remember hdefinition hready hsettles
        ⟨halong.agrees, halong.notes, halong.sound⟩
      rw [Eval.countMiss_eq]
      exact hremembered

end Reflects

end Peg
