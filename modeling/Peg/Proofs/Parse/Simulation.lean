import Peg.Proofs.Expr.Subterms
import Peg.Proofs.Parse.Framed

/-!
# Comparing two evaluations

Two parses are compared by a relation between stretches of them: runs that stood at
two machines now stand at two others.  What the relation has to satisfy is asked of
single steps only, of opening and closing a probe, a round, a label, of terminals
and of actions; that expressions then do alike is proved here once.

The second of the two parses may run into the limit of nested invocations where the
first one does not.

Main results:

- `Eval.Simulates`: the laws for single steps.
- `Eval.Simulates.follows_expr`: an expression does alike in both parses if the rules
  it mentions do.
-/

namespace Peg

variable {V : Type}

namespace Eval

/-- The outcomes of two evaluations go together, unless the second one ran into the
limit of nested invocations. -/
inductive Alike (after : Machine V → Machine V → Prop) :
    Verdict × Machine V → Verdict × Machine V → Prop
  | matched {l l' : Machine V} (h : after l l') : Alike after (.matched, l) (.matched, l')
  | mismatched {l l' : Machine V} (h : after l l') :
      Alike after (.mismatched, l) (.mismatched, l')
  | aborted (error : ParseError) (l l' : Machine V) :
      Alike after (.aborted error, l) (.aborted error, l')
  | limited (outcome : Verdict × Machine V) (limit : Nat) (position : Text.Position)
      (l' : Machine V) : Alike after outcome (.aborted (.recursionLimit limit position), l')

/-- Outcomes that go together by one relation do so by every weaker one. -/
theorem Alike.imp {P Q : Machine V → Machine V → Prop} (himp : ∀ l l', P l l' → Q l l')
    {outcome outcome' : Verdict × Machine V} (h : Alike P outcome outcome') :
    Alike Q outcome outcome' := by
  cases h with
  | matched h => exact .matched (himp _ _ h)
  | mismatched h => exact .mismatched (himp _ _ h)
  | aborted error l l' => exact .aborted error l l'
  | limited outcome limit position l' => exact .limited outcome limit position l'

/-- What is known of the machines that two evaluations leave. -/
theorem Alike.and {P : Machine V → Machine V → Prop} {Q Q' : Machine V → Prop}
    {outcome outcome' : Verdict × Machine V} (h : Alike P outcome outcome')
    (hleft : Leaves Q outcome) (hright : Leaves Q' outcome') :
    Alike (fun l l' => Q l ∧ Q' l' ∧ P l l') outcome outcome' := by
  cases h with
  | matched h => exact .matched ⟨hleft, hright, h⟩
  | mismatched h => exact .mismatched ⟨hleft, hright, h⟩
  | aborted error l l' => exact .aborted error l l'
  | limited outcome limit position l' => exact .limited outcome limit position l'

/-- A relation between stretches: runs that stood at two machines now stand at two
others. -/
abbrev Stretches (V : Type) : Type :=
  Machine V → Machine V → Machine V → Machine V → Prop

/-- Runs may be compared from here on. -/
def Stretches.Start (along : Stretches V) (m n : Machine V) : Prop :=
  along m n m n

/-- A rule or a label is noted as failed, with the nodes from before. -/
def noteFailure (env : Env V) (m left : Machine V) (name : Expected V) : Machine V :=
  { left with nodes := m.nodes }.recordNamed env m.offset m.frontier name

/-- Noting a failure changes the nodes and the frontier only. -/
theorem noteFailure_eq (env : Env V) (m left : Machine V) (name : Expected V) :
    noteFailure env m left name =
      { left with nodes := m.nodes, frontier := (noteFailure env m left name).frontier } :=
  Machine.recordNamed_eq env { left with nodes := m.nodes } m.offset m.frontier name

/-- Where failures are recorded, the frontier takes the name in. -/
theorem frontier_noteFailure {env : Env V} {m left : Machine V} {name : Expected V}
    (h : left.recording env = true) :
    (noteFailure env m left name).frontier =
      left.frontier.recordNamed m.offset m.frontier name := by
  have hinner : Machine.recording env { left with nodes := m.nodes } = true := h
  rw [noteFailure, Machine.recordNamed, if_pos hinner]

/-- Where failures are not recorded, the frontier stays as it is. -/
theorem frontier_noteFailure_of_not_recording {env : Env V} {m left : Machine V}
    {name : Expected V} (h : left.recording env = false) :
    (noteFailure env m left name).frontier = left.frontier := by
  have hinner : Machine.recording env { left with nodes := m.nodes } = false := h
  rw [noteFailure, Machine.recordNamed, hinner]
  rfl

/-- The machine a label starts with. -/
def openLabel (name : String) (m : Machine V) : Machine V :=
  { m with nodes := [], scopes := (.label name, m.offset) :: m.scopes }

/-- The machine after a label. -/
def closeLabel (left : Machine V) : Machine V :=
  { left with scopes := left.scopes.tail }

/-- A label by what it starts with and what it closes with. -/
theorem labeled_eq (env : Env V) (name : String) (eval : Eval V) (m : Machine V) :
    labeled env name eval m =
      match eval (openLabel name m) with
      | (.matched, left) => (.matched, (closeLabel left).addNode m name none)
      | (.mismatched, left) => (.mismatched, noteFailure env m (closeLabel left) (.label name))
      | (.aborted error, left) => (.aborted error, closeLabel left) := by
  unfold labeled
  generalize hopen : eval (openLabel name m) = outcome
  rw [openLabel] at hopen
  rw [hopen]
  rcases outcome with ⟨_ | _ | _, left⟩ <;> rfl

/-- Without a memo a rule that may be invoked has its body matched. -/
theorem invoke_succ_eq_body {env : Env V} (hmemo : env.settings.memoization = false) {id : RuleId}
    {definition : Rule V} (hdefinition : env.grammar.rule? id = some definition)
    (allowance : Nat) (m : Machine V) :
    invoke env (allowance + 1) id m =
      body env id definition none (expr env (invoke env allowance) definition.body) m := by
  simp [invoke, hdefinition, Eval.rule, hmemo]

/-- A rule whose body does not match is noted as failed, and its invocation ends. -/
theorem body_eq_of_mismatched {env : Env V} {m : Machine V} {eval : Eval V} {id : RuleId}
    {definition : Rule V} {inside : Machine V}
    (h : eval (enterRule id definition m) = (.mismatched, inside)) :
    body env id definition none eval m =
      (.mismatched,
        (noteFailure env m (leaveRule definition m inside) (.rule id)).emit
          (.exit id (noteFailure env m (leaveRule definition m inside) (.rule id)).offset
            false)) := by
  unfold body
  rw [h]
  rfl

/-- What a relation between stretches has to satisfy for two parses to be compared
by it. -/
structure Simulates (env₁ env₂ : Env V) (allows : Action V → Prop) (along : Stretches V) :
    Prop where
  source_eq : env₁.source = env₂.source
  restart {m n l l' : Machine V} : along m n l l' → along.Start l l'
  trans {m n l l' k k' : Machine V} : along m n l l' → along l l' k k' → along m n k k'
  cursor_eq {m n : Machine V} : along.Start m n → m.cursor = n.cursor
  /-- Repairs are made in both parses or in neither. -/
  inserted_lt {m n l l' : Machine V} : along.Start m n → m.Frame env₁ l → n.Frame env₂ l' →
    along m n l l' → (m.inserted < l.inserted ↔ n.inserted < l'.inserted)
  rewind {m n l l' : Machine V} : along.Start m n → along m n l l' →
    along m n { l with cursor := m.cursor, nodes := m.nodes }
      { l' with cursor := n.cursor, nodes := n.nodes }
  /-- A commitment may be made that depends on one of machines compared earlier. -/
  recommit {m₀ n₀ m n l l' : Machine V} (before before' : Bool) (f : Bool → Bool) :
    along.Start m₀ n₀ → along { m with committed := before } { n with committed := before' } l l' →
    ∀ after after', along { m with committed := after } { n with committed := after' }
      { l with committed := f m₀.committed } { l' with committed := f n₀.committed }
  observe {m n l l' : Machine V} (stats stats' : Stats) (events events' : List Event) :
    along m n l l' → along m n { l with stats := stats, events := events }
      { l' with stats := stats', events := events' }
  consume {m n : Machine V} {cursor : Text.Cursor} : m.Valid env₁ → n.Valid env₂ → along.Start m n →
    along m n { m with cursor := cursor } { n with cursor := cursor }
  missing {m n : Machine V} (e : Expr V) : m.Valid env₁ → n.Valid env₂ → along.Start m n →
    Alike (along m n) (Eval.missing env₁ e m) (Eval.missing env₂ e n)
  runAction {m n : Machine V} {action : Action V} (span : Text.Span) (synthetic : Bool) :
    allows action → along.Start m n →
    Alike (along m n) (Eval.runAction env₁ action span synthetic m)
      (Eval.runAction env₂ action span synthetic n)
  rounds_eq {m n : Machine V} : along.Start m n → takesTwoRounds env₁ m = takesTwoRounds env₂ n
  openRound {m n : Machine V} : takesTwoRounds env₁ m = true → along.Start m n →
    along.Start (Eval.openRound m) (Eval.openRound n)
  wouldInsert_eq {m n l l' : Machine V} : along (Eval.openRound m) (Eval.openRound n) l l' →
    l.wouldInsert = l'.wouldInsert
  keepRound {m n l l' : Machine V} : takesTwoRounds env₁ m = true → along.Start m n →
    along (Eval.openRound m) (Eval.openRound n) l l' →
    along m n (Eval.keepRound m l) (Eval.keepRound n l')
  undoRound {m n l l' : Machine V} : takesTwoRounds env₁ m = true → along.Start m n →
    along (Eval.openRound m) (Eval.openRound n) l l' →
    along m n (Eval.undoRound m l) (Eval.undoRound n l')
  openProbe {m n : Machine V} : along.Start m n → along.Start (Eval.openProbe m) (Eval.openProbe n)
  closeProbe {m n l l' : Machine V} : along.Start m n → (Eval.openProbe m).Frame env₁ l →
    (Eval.openProbe n).Frame env₂ l' → along (Eval.openProbe m) (Eval.openProbe n) l l' →
    along m n (Eval.closeProbe m l) (Eval.closeProbe n l')
  openLabel {m n : Machine V} (name : String) : along.Start m n →
    along.Start (Eval.openLabel name m) (Eval.openLabel name n)
  closeLabel {m n l l' : Machine V} (name : String) : along.Start m n →
    along (Eval.openLabel name m) (Eval.openLabel name n) l l' →
    along m n ((Eval.closeLabel l).addNode m name none) ((Eval.closeLabel l').addNode n name none)
  missLabel {m n l l' : Machine V} (name : String) : along.Start m n →
    (Eval.openLabel name m).Frame env₁ l → (Eval.openLabel name n).Frame env₂ l' →
    along (Eval.openLabel name m) (Eval.openLabel name n) l l' →
    along m n (noteFailure env₁ m (Eval.closeLabel l) (.label name))
      (noteFailure env₂ n (Eval.closeLabel l') (.label name))

/-- Runs are ready to be compared, inside of lookahead or not. -/
structure Ready (env₁ env₂ : Env V) (along : Stretches V) (probing : Bool)
    (m n : Machine V) : Prop where
  left : m.Valid env₁
  right : n.Valid env₂
  probing_eq : (m.probes != 0) = probing
  start : along.Start m n

/-- What is known after a stretch that was compared. -/
structure Reached (env₁ env₂ : Env V) (along : Stretches V) (m n l l' : Machine V) : Prop where
  left : m.Frame env₁ l
  right : n.Frame env₂ l'
  along : along m n l l'

/-- The same, but for the commitment. -/
structure ReachedUncommitted (env₁ env₂ : Env V) (along : Stretches V)
    (m n l l' : Machine V) : Prop where
  reached : Reached env₁ env₂ along m n { l with committed := m.committed }
    { l' with committed := n.committed }
  start : along.Start l l'

/-- Two evaluations do alike wherever they are compared. -/
structure Follows (env₁ env₂ : Env V) (along : Stretches V) (probing : Bool) (a b : Eval V) :
    Prop where
  framed_left : Framed env₁ a
  framed_right : Framed env₂ b
  alike : ∀ m n, Ready env₁ env₂ along probing m n → Alike (along m n) (a m) (b n)

variable {env₁ env₂ : Env V} {allows : Action V → Prop} {along : Stretches V}
variable {probing : Bool} {a b : Eval V} {m n l l' k k' : Machine V}

/-- Two evaluations that do alike leave runs which can be compared, each in a frame of its own. -/
theorem Follows.reached (h : Follows env₁ env₂ along probing a b)
    (hready : Ready env₁ env₂ along probing m n) :
    Alike (Reached env₁ env₂ along m n) (a m) (b n) :=
  ((h.alike m n hready).and (h.framed_left m hready.left) (h.framed_right n hready.right)).imp
    fun _ _ ⟨hleft, hright, halong⟩ => ⟨hleft, hright, halong⟩

/-- Two items of sequences do alike. -/
inductive Element.Follows (env₁ env₂ : Env V) (allows : Action V → Prop) (along : Stretches V)
    (probing : Bool) : Element V → Element V → Prop
  | act {action : Action V} (hallows : allows action) :
      Element.Follows env₁ env₂ allows along probing (.act action) (.act action)
  | part {a b : Eval V} (h : Eval.Follows env₁ env₂ along probing a b) :
      Element.Follows env₁ env₂ allows along probing (.part a) (.part b)

/-- Items that do alike keep the frame in either parse. -/
theorem Element.Follows.framed {item item' : Element V}
    (h : item.Follows env₁ env₂ allows along probing item') :
    item.Framed env₁ ∧ item'.Framed env₂ := by
  cases h with
  | act hallows => exact ⟨trivial, trivial⟩
  | part h => exact ⟨h.framed_left, h.framed_right⟩

namespace Simulates

variable (sim : Simulates env₁ env₂ allows along)

include sim

/-! ## Stretches -/

/-- Runs that can be compared stand at the same offset. -/
theorem offset_eq (hstart : along.Start m n) : n.offset = m.offset :=
  congrArg Text.Cursor.offset (sim.cursor_eq hstart).symm

/-- Runs that have been compared may be compared further. -/
theorem ready_reached (hready : Ready env₁ env₂ along probing m n)
    (h : Reached env₁ env₂ along m n l l') : Ready env₁ env₂ along probing l l' where
  left := h.left.valid
  right := h.right.valid
  probing_eq := by rw [h.left.probes, hready.probing_eq]
  start := sim.restart h.along

omit sim in
/-- Nothing has happened to either run yet. -/
theorem reached_refl (hready : Ready env₁ env₂ along probing m n) :
    Reached env₁ env₂ along m n m n :=
  ⟨.refl hready.left, .refl hready.right, hready.start⟩

/-- Both runs are committed in the same way. -/
theorem ready_commit (hready : Ready env₁ env₂ along probing m n) {m₀ n₀ : Machine V}
    (hstart : along.Start m₀ n₀) (f : Bool → Bool) :
    Ready env₁ env₂ along probing { m with committed := f m₀.committed }
      { n with committed := f n₀.committed } where
  left := ⟨hready.left.within, hready.left.vars⟩
  right := ⟨hready.right.within, hready.right.vars⟩
  probing_eq := hready.probing_eq
  start := sim.recommit m.committed n.committed f hstart hready.start _ _

/-- The commitment may be left out of what is known. -/
theorem reached_uncommitted (hready : Ready env₁ env₂ along probing m n)
    (h : Reached env₁ env₂ along m n l l') : ReachedUncommitted env₁ env₂ along m n l l' where
  reached :=
    ⟨h.left.upToCommitment, h.right.upToCommitment,
      sim.recommit m.committed n.committed id hready.start h.along _ _⟩
  start := sim.restart h.along

/-- A stretch under a commitment of one's own. -/
theorem reached_committed (hready : Ready env₁ env₂ along probing m n) {before before' : Bool}
    (h : Reached env₁ env₂ along { m with committed := before } { n with committed := before' }
      l l') : ReachedUncommitted env₁ env₂ along m n l l' where
  reached :=
    ⟨h.left.keepCommitment, h.right.keepCommitment,
      sim.recommit before before' id hready.start h.along m.committed n.committed⟩
  start := sim.restart h.along

omit sim in
/-- Runs compared up to the commitment may be compared further. -/
theorem ready_uncommitted (hready : Ready env₁ env₂ along probing m n)
    (h : ReachedUncommitted env₁ env₂ along m n l l') :
    Ready env₁ env₂ along probing l l' where
  left := ⟨h.reached.left.valid.within, h.reached.left.valid.vars⟩
  right := ⟨h.reached.right.valid.within, h.reached.right.valid.vars⟩
  probing_eq := by
    have hprobes : l.probes = m.probes := h.reached.left.probes
    rw [hprobes, hready.probing_eq]
  start := h.start

/-- A stretch behind another, both compared up to the commitment. -/
theorem uncommitted_trans (hready : Ready env₁ env₂ along probing m n)
    (h : ReachedUncommitted env₁ env₂ along m n l l')
    (hlast : ReachedUncommitted env₁ env₂ along l l' k k') :
    ReachedUncommitted env₁ env₂ along m n k k' where
  reached :=
    ⟨h.reached.left.trans (hlast.reached.left.recommit m.committed),
      h.reached.right.trans (hlast.reached.right.recommit n.committed),
      sim.trans h.reached.along
        (sim.recommit l.committed l'.committed id hready.start hlast.reached.along _ _)⟩
  start := hlast.start

/-- An outcome behind a stretch, compared up to the commitment. -/
theorem alike_uncommitted_trans {outcome outcome' : Verdict × Machine V}
    (hready : Ready env₁ env₂ along probing m n)
    (h : ReachedUncommitted env₁ env₂ along m n l l')
    (hlast : Alike (ReachedUncommitted env₁ env₂ along l l') outcome outcome') :
    Alike (ReachedUncommitted env₁ env₂ along m n) outcome outcome' :=
  hlast.imp fun _ _ => sim.uncommitted_trans hready h

/-! ## Combinators that keep the place -/

/-- Evaluations that do alike do so if both go back after a mismatch. -/
theorem rewinding (h : Follows env₁ env₂ along probing a b) :
    Follows env₁ env₂ along probing (Eval.rewinding a) (Eval.rewinding b) where
  framed_left := h.framed_left.rewinding
  framed_right := h.framed_right.rewinding
  alike := by
    intro m n hready
    have halike := h.alike m n hready
    unfold Eval.rewinding
    generalize a m = outcome at halike ⊢
    generalize b n = outcome' at halike ⊢
    cases halike with
    | matched halong => exact .matched halong
    | mismatched halong => exact .mismatched (sim.rewind hready.start halong)
    | aborted error l l' => exact .aborted error l l'
    | limited outcome limit position l' => exact .limited _ limit position l'

omit sim in
/-- Evaluations that do alike up to the commitment do alike if it is given back. -/
theorem keepingCommitment (hframed : Framed env₁ (Eval.keepingCommitment a))
    (hframed' : Framed env₂ (Eval.keepingCommitment b))
    (h : ∀ m n, Ready env₁ env₂ along probing m n →
      Alike (ReachedUncommitted env₁ env₂ along m n) (a m) (b n)) :
    Follows env₁ env₂ along probing (Eval.keepingCommitment a) (Eval.keepingCommitment b) where
  framed_left := hframed
  framed_right := hframed'
  alike := by
    intro m n hready
    have halike := h m n hready
    unfold Eval.keepingCommitment
    generalize a m = outcome at halike ⊢
    generalize b n = outcome' at halike ⊢
    cases halike with
    | matched hreached => exact .matched hreached.reached.along
    | mismatched hreached => exact .mismatched hreached.reached.along
    | aborted error l l' => exact .aborted error _ _
    | limited outcome limit position l' => exact .limited _ limit position _

/-! ## Terminals and actions -/

/-- A terminal does alike in both parses, since both read the same text. -/
theorem terminal (e : Expr V) :
    Follows env₁ env₂ along probing (Eval.terminal env₁ e) (Eval.terminal env₂ e) where
  framed_left := framed_terminal e
  framed_right := framed_terminal e
  alike := by
    intro m n hready
    unfold Eval.terminal
    rw [← sim.cursor_eq hready.start]
    split
    next cursor hconsume => exact .matched (sim.consume hready.left hready.right hready.start)
    next hconsume => exact sim.missing e hready.left hready.right hready.start

/-- An allowed action does alike in both parses. -/
theorem action {action : Action V} (hallows : allows action) (span : Text.Span)
    (synthetic : Bool) :
    Follows env₁ env₂ along probing (Eval.runAction env₁ action span synthetic)
      (Eval.runAction env₂ action span synthetic) where
  framed_left := framed_runAction action span synthetic
  framed_right := framed_runAction action span synthetic
  alike := fun _ _ hready => sim.runAction span synthetic hallows hready.start

/-! ## Sequences -/

section Items

variable {ι : Type} {items : List ι} {f g : ι → Element V}

/-- Items that do alike one by one do alike one after another, under the commitments of one
sequence. -/
theorem runElements
    (hitems : ∀ item ∈ items, (f item).Follows env₁ env₂ allows along probing (g item))
    {m₀ n₀ : Machine V} (hstart : along.Start m₀ n₀) (previous : Text.Span) (synthetic : Bool)
    (hready : Ready env₁ env₂ along probing m n) :
    Alike (ReachedUncommitted env₁ env₂ along m n)
      (Eval.runElements env₁ m₀.offset m₀.committed (items.map f) previous synthetic m)
      (Eval.runElements env₂ m₀.offset n₀.committed (items.map g) previous synthetic n) := by
  induction items generalizing m n previous synthetic with
  | nil => exact .matched (sim.reached_uncommitted hready (reached_refl hready))
  | cons item items ih =>
      have hitems' := fun item hitem => hitems item (List.mem_cons_of_mem _ hitem)
      have hitem := hitems item List.mem_cons_self
      rw [List.map_cons, List.map_cons]
      generalize f item = left at hitem ⊢
      generalize g item = right at hitem ⊢
      cases hitem with
      | act hallows =>
          have hfollows : Follows env₁ env₂ along probing _ _ :=
            sim.action hallows previous synthetic
          have halike := hfollows.reached hready
          rw [Eval.runElements, Eval.runElements]
          generalize Eval.runAction env₁ _ previous synthetic m = outcome at halike ⊢
          generalize Eval.runAction env₂ _ previous synthetic n = outcome' at halike ⊢
          cases halike with
          | matched hreached =>
              exact sim.alike_uncommitted_trans hready (sim.reached_uncommitted hready hreached)
                (ih hitems' previous synthetic (sim.ready_reached hready hreached))
          | mismatched hreached => exact .mismatched (sim.reached_uncommitted hready hreached)
          | aborted error l l' => exact .aborted error l l'
          | limited outcome limit position l' => exact .limited _ limit position l'
      | @part a b hpart =>
          have hbegin := sim.offset_eq hready.start
          have hinner := sim.ready_commit hready hstart (· || decide (m₀.offset < m.offset))
          have halike := hpart.reached hinner
          rw [Eval.runElements, Eval.runElements, hbegin]
          generalize a { m with committed := m₀.committed || decide (m₀.offset < m.offset) } =
            outcome at halike ⊢
          generalize b { n with committed := n₀.committed || decide (m₀.offset < m.offset) } =
            outcome' at halike ⊢
          cases halike with
          | @matched l l' hreached =>
              have hinserted :
                  decide (n.inserted < l'.inserted) = decide (m.inserted < l.inserted) :=
                decide_eq_decide.2
                  (sim.inserted_lt hinner.start hreached.left hreached.right hreached.along).symm
              have hrest := sim.reached_committed hready hreached
              simp only [sim.offset_eq hrest.start, hinserted]
              exact sim.alike_uncommitted_trans hready hrest
                (ih hitems' _ _ (ready_uncommitted hready hrest))
          | mismatched hreached => exact .mismatched (sim.reached_committed hready hreached)
          | aborted error l l' => exact .aborted error l l'
          | limited outcome limit position l' => exact .limited _ limit position l'

/-- Sequences do alike if their items do. -/
theorem sequence
    (hitems : ∀ item ∈ items, (f item).Follows env₁ env₂ allows along probing (g item)) :
    Follows env₁ env₂ along probing (Eval.sequence env₁ (items.map f))
      (Eval.sequence env₂ (items.map g)) := by
  refine keepingCommitment (framed_sequence ?_) (framed_sequence ?_) ?_
  · exact List.forall_mem_map.2 fun item hitem => (hitems item hitem).framed.1
  · exact List.forall_mem_map.2 fun item hitem => (hitems item hitem).framed.2
  · intro m n hready
    rw [sim.offset_eq hready.start]
    exact sim.runElements hitems hready.start (Text.Span.emptyAt m.offset) false hready

end Items

/-! ## Choices -/

section Alternatives

variable {ι : Type} {items : List ι} {f g : ι → Eval V}

/-- Alternatives do alike if each of them does. -/
theorem alternatives
    (hitems : ∀ item ∈ items, Follows env₁ env₂ along probing (f item) (g item)) :
    Follows env₁ env₂ along probing (Eval.alternatives (items.map f))
      (Eval.alternatives (items.map g)) := by
  have hleft := fun item hitem => (hitems item hitem).framed_left
  have hright := fun item hitem => (hitems item hitem).framed_right
  refine ⟨framed_alternatives (List.forall_mem_map.2 hleft),
    framed_alternatives (List.forall_mem_map.2 hright), ?_⟩
  clear hleft hright
  induction items with
  | nil => exact fun m n hready => .mismatched hready.start
  | cons item items ih =>
      intro m n hready
      have ih := ih fun item hitem => hitems item (List.mem_cons_of_mem _ hitem)
      have halike := (hitems item List.mem_cons_self).reached hready
      rw [List.map_cons, List.map_cons, Eval.alternatives, Eval.alternatives]
      generalize f item m = outcome at halike ⊢
      generalize g item n = outcome' at halike ⊢
      cases halike with
      | matched hreached => exact .matched hreached.along
      | @mismatched l l' hreached =>
          simp only [List.isEmpty_map]
          split
          next => exact .mismatched hreached.along
          next =>
              have hback : Reached env₁ env₂ along m n l.backtrack l'.backtrack :=
                ⟨hreached.left.observe _ _, hreached.right.observe _ _,
                  sim.observe _ _ _ _ hreached.along⟩
              exact (ih _ _ (sim.ready_reached hready hback)).imp fun _ _ =>
                sim.trans hback.along
      | aborted error l l' => exact .aborted error l l'
      | limited outcome limit position l' => exact .limited _ limit position l'

/-- Choices do alike if their alternatives do: both take the same number of rounds. -/
theorem choice
    (hitems : ∀ item ∈ items, Follows env₁ env₂ along probing (f item) (g item)) :
    Follows env₁ env₂ along probing (Eval.choice env₁ (items.map f))
      (Eval.choice env₂ (items.map g)) := by
  have hboth := sim.alternatives hitems
  refine ⟨framed_choice (List.forall_mem_map.2 fun item hitem => (hitems item hitem).framed_left),
    framed_choice (List.forall_mem_map.2 fun item hitem => (hitems item hitem).framed_right), ?_⟩
  intro m n hready
  unfold Eval.choice
  rw [← sim.rounds_eq hready.start]
  split
  next hround =>
      have hopen : Ready env₁ env₂ along probing (Eval.openRound m) (Eval.openRound n) :=
        ⟨⟨hready.left.within, hready.left.vars⟩, ⟨hready.right.within, hready.right.vars⟩,
          hready.probing_eq, sim.openRound hround hready.start⟩
      have hround' : takesTwoRounds env₂ n = true := sim.rounds_eq hready.start ▸ hround
      have halike := hboth.reached hopen
      generalize Eval.alternatives (items.map f) (Eval.openRound m) = outcome at halike ⊢
      generalize Eval.alternatives (items.map g) (Eval.openRound n) = outcome' at halike ⊢
      cases halike with
      | matched hreached => exact .matched (sim.keepRound hround hready.start hreached.along)
      | @mismatched l l' hreached =>
          simp only [← sim.wouldInsert_eq hreached.along]
          split
          next =>
              have hundo : Reached env₁ env₂ along m n (Eval.undoRound m l) (Eval.undoRound n l') :=
                ⟨hreached.left.undoRound hround, hreached.right.undoRound hround',
                  sim.undoRound hround hready.start hreached.along⟩
              exact (hboth.alike _ _ (sim.ready_reached hready hundo)).imp fun _ _ =>
                sim.trans hundo.along
          next => exact .mismatched (sim.keepRound hround hready.start hreached.along)
      | aborted error l l' => exact .aborted error _ _
      | limited outcome limit position l' => exact .limited _ limit position _
  next => exact hboth.alike m n hready

end Alternatives

/-! ## Repetitions and options -/

/-- Both runs have the same number of bytes in front of them. -/
theorem remaining_eq (hstart : along.Start m n) : remaining env₂ n = remaining env₁ m := by
  rw [remaining, remaining, sim.source_eq, sim.offset_eq hstart]

/-- Iterations do alike if their body does, and end together. -/
theorem many (h : Follows env₁ env₂ along probing a b)
    (hready : Ready env₁ env₂ along probing m n) :
    Alike (ReachedUncommitted env₁ env₂ along m n) (Eval.many env₁ a m) (Eval.many env₂ b n) := by
  -- Both loops go round as long as the number of bytes left gets smaller.
  induction hbytes : remaining env₁ m using Nat.strongRecOn generalizing m n with
  | _ bytes ih =>
      have halike := h.reached (sim.ready_commit hready hready.start fun _ => false)
      rw [Eval.many, Eval.many]
      generalize a { m with committed := false } = outcome at halike ⊢
      generalize b { n with committed := false } = outcome' at halike ⊢
      cases halike with
      | @matched l l' hreached =>
          have hrest := sim.reached_committed hready hreached
          simp only [sim.remaining_eq hready.start, sim.remaining_eq hrest.start]
          split
          next hless =>
              exact sim.alike_uncommitted_trans hready hrest
                (ih _ (hbytes ▸ hless) (ready_uncommitted hready hrest) rfl)
          next => exact .matched hrest
      | mismatched hreached => exact .matched (sim.reached_committed hready hreached)
      | aborted error l l' => exact .aborted error l l'
      | limited outcome limit position l' => exact .limited _ limit position l'

/-- Repetitions do alike if their bodies do. -/
theorem star (h : Follows env₁ env₂ along probing a b) :
    Follows env₁ env₂ along probing (Eval.star env₁ a) (Eval.star env₂ b) :=
  keepingCommitment (framed_star h.framed_left) (framed_star h.framed_right)
    fun _ _ hready => sim.many h hready

/-- Repetitions with a first iteration that must match do alike if their bodies do. -/
theorem plus (h : Follows env₁ env₂ along probing a b) :
    Follows env₁ env₂ along probing (Eval.plus env₁ a) (Eval.plus env₂ b) := by
  refine keepingCommitment (framed_plus h.framed_left) (framed_plus h.framed_right) ?_
  intro m n hready
  have halike := h.reached hready
  generalize a m = outcome at halike ⊢
  generalize b n = outcome' at halike ⊢
  cases halike with
  | @matched l l' hreached =>
      have hrest := sim.reached_uncommitted hready hreached
      simp only [sim.remaining_eq hready.start, sim.remaining_eq hrest.start]
      split
      next =>
          exact sim.alike_uncommitted_trans hready hrest
            (sim.many h (sim.ready_reached hready hreached))
      next => exact .matched hrest
  | mismatched hreached => exact .mismatched (sim.reached_uncommitted hready hreached)
  | aborted error l l' => exact .aborted error l l'
  | limited outcome limit position l' => exact .limited _ limit position l'

/-- Options do alike if their bodies do. -/
theorem optional (h : Follows env₁ env₂ along probing a b) :
    Follows env₁ env₂ along probing (Eval.optional a) (Eval.optional b) := by
  refine keepingCommitment (framed_optional h.framed_left) (framed_optional h.framed_right) ?_
  intro m n hready
  have halike := h.reached (sim.ready_commit hready hready.start fun _ => false)
  generalize a { m with committed := false } = outcome at halike ⊢
  generalize b { n with committed := false } = outcome' at halike ⊢
  cases halike with
  | matched hreached => exact .matched (sim.reached_committed hready hreached)
  | mismatched hreached => exact .matched (sim.reached_committed hready hreached)
  | aborted error l l' => exact .aborted error l l'
  | limited outcome limit position l' => exact .limited _ limit position l'

/-! ## Lookahead and labels -/

/-- Lookaheads do alike if their bodies do inside of lookahead. -/
theorem ahead (expectMatch : Bool) (h : Follows env₁ env₂ along true a b) :
    Follows env₁ env₂ along probing (Eval.ahead expectMatch a) (Eval.ahead expectMatch b) := by
  refine ⟨framed_ahead expectMatch h.framed_left, framed_ahead expectMatch h.framed_right, ?_⟩
  intro m n hready
  have hopen : Ready env₁ env₂ along true (Eval.openProbe m) (Eval.openProbe n) :=
    ⟨⟨hready.left.within, hready.left.vars⟩, ⟨hready.right.within, hready.right.vars⟩,
      by simp [Eval.openProbe], sim.openProbe hready.start⟩
  have halike := h.reached hopen
  unfold Eval.ahead
  generalize a (Eval.openProbe m) = outcome at halike ⊢
  generalize b (Eval.openProbe n) = outcome' at halike ⊢
  cases halike with
  | @matched l l' hreached =>
      have hclose := sim.closeProbe hready.start hreached.left hreached.right hreached.along
      cases expectMatch with
      | true => exact .matched hclose
      | false => exact .mismatched hclose
  | @mismatched l l' hreached =>
      have hclose := sim.closeProbe hready.start hreached.left hreached.right hreached.along
      cases expectMatch with
      | true => exact .mismatched hclose
      | false => exact .matched hclose
  | aborted error l l' => exact .aborted error _ _
  | limited outcome limit position l' => exact .limited _ limit position _

/-- Labels do alike if what they stand around does. -/
theorem labeled (name : String) (h : Follows env₁ env₂ along probing a b) :
    Follows env₁ env₂ along probing (Eval.labeled env₁ name a) (Eval.labeled env₂ name b) := by
  refine ⟨framed_labeled name h.framed_left, framed_labeled name h.framed_right, ?_⟩
  intro m n hready
  have hopen : Ready env₁ env₂ along probing (Eval.openLabel name m) (Eval.openLabel name n) :=
    ⟨⟨hready.left.within, hready.left.vars⟩, ⟨hready.right.within, hready.right.vars⟩,
      hready.probing_eq, sim.openLabel name hready.start⟩
  have halike := h.reached hopen
  rw [labeled_eq, labeled_eq]
  generalize a (Eval.openLabel name m) = outcome at halike ⊢
  generalize b (Eval.openLabel name n) = outcome' at halike ⊢
  cases halike with
  | matched hreached => exact .matched (sim.closeLabel name hready.start hreached.along)
  | mismatched hreached =>
      exact .mismatched
        (sim.missLabel name hready.start hreached.left hreached.right hreached.along)
  | aborted error l l' => exact .aborted error _ _
  | limited outcome limit position l' => exact .limited _ limit position _

/-! ## Expressions -/

/-- An expression does alike in both parses if its actions are allowed and the rules it
mentions do. -/
theorem follows_expr {call₁ call₂ : RuleId → Eval V} (e : Expr V)
    (hallows : ∀ action, .action action ∈ e.subterms → allows action)
    (hcall : ∀ inside id, e.Mentions probing inside id →
      Follows env₁ env₂ along inside (call₁ id) (call₂ id)) :
    Follows env₁ env₂ along probing (expr env₁ call₁ e) (expr env₂ call₂ e) := by
  induction e using Expr.induction_children generalizing probing with
  | step e ih =>
      have hpart : ∀ part ∈ e.children, Follows env₁ env₂ along (probing || e.looksAhead)
          (expr env₁ call₁ part) (expr env₂ call₂ part) := fun part hmem =>
        ih part hmem
          (fun action hsub => hallows action (Expr.mem_subterms_of_mem_children hmem hsub))
          fun inside id hmentions => hcall inside id (.part hmem hmentions)
      cases e with
      | seq items =>
          simp only [Expr.looksAhead, Bool.or_false] at hpart
          have hitems : ∀ item ∈ items,
              (Element.ofExpr (expr env₁ call₁ item) item).Follows env₁ env₂ allows along probing
                (Element.ofExpr (expr env₂ call₂ item) item) := by
            intro item hitem
            cases item with
            | action action =>
                refine .act (hallows action ?_)
                exact Expr.mem_subterms_of_mem_children hitem (Expr.mem_subterms_self _)
            | _ => exact .part (hpart _ hitem)
          have hseq := sim.rewinding (sim.sequence hitems)
          simp only [← elements_eq_map] at hseq
          exact hseq
      | choice items =>
          simp only [Expr.looksAhead, Bool.or_false] at hpart
          have hchoice := sim.rewinding (sim.choice hpart)
          simp only [← evalAll_eq_map, Expr.children] at hchoice
          exact hchoice
      | star body =>
          simp only [Expr.looksAhead, Bool.or_false] at hpart
          exact sim.rewinding (sim.star (hpart body List.mem_cons_self))
      | plus body =>
          simp only [Expr.looksAhead, Bool.or_false] at hpart
          exact sim.rewinding (sim.plus (hpart body List.mem_cons_self))
      | optional body =>
          simp only [Expr.looksAhead, Bool.or_false] at hpart
          exact sim.rewinding (sim.optional (hpart body List.mem_cons_self))
      | notAhead body =>
          simp only [Expr.looksAhead, Bool.or_true] at hpart
          exact sim.rewinding (sim.ahead false (hpart body List.mem_cons_self))
      | ahead body =>
          simp only [Expr.looksAhead, Bool.or_true] at hpart
          exact sim.rewinding (sim.ahead true (hpart body List.mem_cons_self))
      | label name body =>
          simp only [Expr.looksAhead, Bool.or_false] at hpart
          exact sim.rewinding (sim.labeled name (hpart body List.mem_cons_self))
      | rule id => exact sim.rewinding (hcall probing id (.rule probing id))
      | action action =>
          have hmem := hallows action (Expr.mem_subterms_self _)
          have hfollows : Follows env₁ env₂ along probing
              (fun m => Eval.runAction env₁ action (Text.Span.emptyAt m.offset) false m)
              (fun m => Eval.runAction env₂ action (Text.Span.emptyAt m.offset) false m) := by
            refine ⟨fun m hm => framed_runAction _ _ _ m hm,
              fun m hm => framed_runAction _ _ _ m hm, ?_⟩
            intro m n hready
            rw [sim.offset_eq hready.start]
            exact sim.runAction _ _ hmem hready.start
          exact sim.rewinding hfollows
      | empty => exact sim.rewinding (sim.terminal .empty)
      | _ => exact sim.rewinding (sim.terminal _)

end Simulates

end Eval

end Peg
