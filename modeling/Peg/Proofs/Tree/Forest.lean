import Mathlib
import Peg.Proofs.Tree.Match

/-!
# The parse tree of a match

The nodes of a parse tree are gathered in one list while the text is matched, newest first.
A rule or a label sets the list aside, gathers the nodes below it in a new one and then puts
a node of its own on the old one; a mismatch goes back to the list from before; and while
nodes are suppressed nothing is put on the list.  What is gathered that way by a match is
its forest.

Main results:

- `Machine.Gathers`: the nodes are those from before with the forest of a match.
- `Yields.gathers`: an evaluation that matches gathers the forest of its match.
- `tree_of_succeeded`: the tree of a successful parse.
-/

namespace Peg

open Text Eval

variable {V : Type}

/-! ## Gathering nodes -/

namespace Machine

/-- The nodes of a machine with a forest after them, unless nodes are suppressed. -/
def nodesWith (m : Machine V) (forest : List Tree) : List Tree :=
  if m.suppressed = 0 then forest.reverse ++ m.nodes else m.nodes

/-- What a match that leads from one machine to another has left: it reaches from reading
head to reading head, and its forest has been put on the nodes. -/
structure Gathers (env : Env V) (m left : Machine V) (found : Match) : Prop where
  spans : found.Spans m.offset left.offset
  nodes : left.nodes = m.nodesWith (found.forest env.grammar)

variable {env : Env V} {m n l left : Machine V} {found : Match}

@[simp] theorem nodesWith_nil (m : Machine V) : m.nodesWith [] = m.nodes := by
  simp [nodesWith]

/-- One forest after another. -/
theorem nodesWith_append {first rest : List Tree} (hsuppressed : left.suppressed = m.suppressed)
    (h : left.nodes = m.nodesWith first) : left.nodesWith rest = m.nodesWith (first ++ rest) := by
  unfold nodesWith at h ⊢
  rw [hsuppressed, h]
  by_cases hnone : m.suppressed = 0
  · simp [hnone]
  · simp [hnone]

/-- Only the reading head, the nodes and the suppression of nodes matter. -/
theorem Gathers.congr (h : Gathers env m left found) (hoffset : n.offset = m.offset)
    (hnodes : n.nodes = m.nodes) (hsuppressed : n.suppressed = m.suppressed)
    (hoffset' : l.offset = left.offset) (hnodes' : l.nodes = left.nodes) :
    Gathers env n l found := by
  refine ⟨?_, ?_⟩
  · rw [hoffset, hoffset']
    exact h.spans
  · rw [hnodes', h.nodes, nodesWith, nodesWith, hnodes, hsuppressed]

/-- A stretch in which nothing is gathered and the reading head does not move. -/
theorem Gathers.of_same (hspans : found.Spans m.offset m.offset)
    (hforest : found.forest env.grammar = []) (hoffset : left.offset = m.offset)
    (hnodes : left.nodes = m.nodes) : Gathers env m left found := by
  refine ⟨?_, ?_⟩
  · rw [hoffset]
    exact hspans
  · rw [hforest, nodesWith_nil, hnodes]

/-- A part and the rest behind it. -/
theorem Gathers.chain {middle : Machine V} {first rest : Match}
    (hsuppressed : middle.suppressed = m.suppressed) (hfirst : Gathers env m middle first)
    (hrest : Gathers env middle left rest) : Gathers env m left (.chain first rest) where
  spans := .chain hfirst.spans hrest.spans
  nodes := hrest.nodes.trans (nodesWith_append hsuppressed hfirst.nodes)

/-- A node over what was gathered for it. -/
theorem nodes_addNode {outer : Machine V} {below : List Tree}
    (hsuppressed : m.suppressed = outer.suppressed)
    (h : m.nodes = if outer.suppressed = 0 then below.reverse else []) (label : String)
    (rule? : Option RuleId) :
    (m.addNode outer label rule?).nodes =
      outer.nodesWith [.node label ⟨outer.offset, m.offset⟩ rule? below] := by
  unfold addNode nodesWith
  rw [hsuppressed, h]
  by_cases hnone : outer.suppressed = 0
  · simp [hnone]
  · simp [hnone]

/-- What is gathered for a label becomes its node. -/
theorem Gathers.closeLabel {name : String} (hframe : (openLabel name m).Frame env left)
    (h : Gathers env (openLabel name m) left found) :
    Gathers env m ((Eval.closeLabel left).addNode m name none)
      (.label name ⟨m.offset, left.offset⟩ found) where
  spans := .label h.spans
  nodes := by
    have hsuppressed : (Eval.closeLabel left).suppressed = m.suppressed := hframe.suppressed
    refine nodes_addNode hsuppressed ?_ name none
    refine h.nodes.trans ?_
    unfold nodesWith openLabel
    simp

/-- In a rule that drops what is below it nodes are suppressed. -/
theorem nodesWith_enterRule (id : RuleId) (definition : Rule V) (m : Machine V)
    (forest : List Tree) :
    (enterRule id definition m).nodesWith forest =
      if m.suppressed = 0 ∧ definition.options.suppresses = false then forest.reverse else [] := by
  unfold nodesWith enterRule
  cases hsuppresses : definition.options.suppresses with
  | false => simp
  | true => simp

/-- What a rule contributes, given the nodes below it. -/
theorem nodes_contribute {id : RuleId} {definition : Rule V} {below : List Tree}
    (hsuppressed : left.suppressed = m.suppressed)
    (h : left.nodes =
      if m.suppressed = 0 ∧ definition.options.suppresses = false then below.reverse else []) :
    (Eval.contribute id definition m left).nodes =
      m.nodesWith (definition.forest id ⟨m.offset, left.offset⟩ below) := by
  unfold Eval.contribute Rule.forest
  by_cases hnode : definition.options.suppressNode = true
  · have hbuilds : definition.options.buildsNode = false := by
      simp [RuleOptions.buildsNode, hnode]
    have hnone : left.nodes = [] := by
      simp [h, RuleOptions.suppresses, hnode]
    simp [hbuilds, hnone, hnode]
  · have hkept : left.nodes = if m.suppressed = 0 then
        (if definition.options.suppressSubnodes then [] else below).reverse else [] := by
      rw [h]
      by_cases hsubnodes : definition.options.suppressSubnodes = true
      · simp [RuleOptions.suppresses, hsubnodes]
      · simp [RuleOptions.suppresses, hnode, hsubnodes]
    rw [if_neg hnode]
    by_cases hskip : definition.options.skipNode = true
    · have hbuilds : definition.options.buildsNode = false := by
        simp [RuleOptions.buildsNode, hskip]
      rw [if_pos hskip, if_neg (Bool.eq_false_iff.1 hbuilds)]
      unfold nodesWith
      dsimp only
      rw [hkept]
      split <;> rfl
    · have hbuilds : definition.options.buildsNode = true := by
        simp [RuleOptions.buildsNode, hnode, hskip]
      rw [if_neg hskip, if_pos hbuilds]
      exact nodes_addNode hsuppressed hkept definition.name (some id)

/-- What is gathered for a rule becomes what its options make of it. -/
theorem Gathers.contribute {id : RuleId} {definition : Rule V}
    (hdefinition : env.grammar.rule? id = some definition)
    (hframe : (enterRule id definition m).Frame env left)
    (h : Gathers env (enterRule id definition m) left found) :
    Gathers env m (Eval.contribute id definition m (leaveRule definition m left))
      (.rule id ⟨m.offset, left.offset⟩ found) where
  spans := by
    rw [contribute_eq]
    exact .rule h.spans
  nodes := by
    have hsuppressed : (leaveRule definition m left).suppressed = m.suppressed := by
      have hinside : left.suppressed = (enterRule id definition m).suppressed := hframe.suppressed
      simp only [leaveRule, hinside, enterRule]
      split <;> rfl
    have hbelow : (leaveRule definition m left).nodes = _ :=
      h.nodes.trans (nodesWith_enterRule id definition m (found.forest env.grammar))
    simp only [Match.forest, hdefinition]
    exact nodes_contribute hsuppressed hbelow

end Machine

open Machine

variable {env : Env V} {root : RuleId} {a : Nat} {task : Task V} {m left : Machine V}
variable {found : Match}

/-! ## What a match gathers -/

/-- An action leaves the reading head and the nodes as they are. -/
theorem Eval.place_of_runAction {action : Action V} {span : Span} {synthetic : Bool}
    (h : runAction env action span synthetic m = (.matched, left)) :
    left.offset = m.offset ∧ left.nodes = m.nodes ∧ left.suppressed = m.suppressed := by
  rcases exists_snd_runAction env action span synthetic m with ⟨_, _, _, hleft⟩
  rw [h] at hleft
  obtain rfl : left = _ := hleft
  exact ⟨rfl, rfl, rfl⟩

/-- An option gives back the commitment that it was given. -/
theorem Eval.optional_of_accepted {eval : Eval V}
    (h : accepted (eval { m with committed := false }) = (.matched, left)) :
    Eval.optional eval m = (.matched, { left with committed := m.committed }) := by
  rw [optional_eq]
  unfold keepingCommitment
  dsimp only
  rw [h]

/-- A lookahead by the outcome of its body. -/
theorem Eval.ahead_of_run {expectMatch : Bool} {eval : Eval V} {verdict : Verdict}
    (h : eval (openProbe m) = (verdict, left)) :
    Eval.ahead expectMatch eval m = (aheadVerdict expectMatch verdict, closeProbe m left) := by
  unfold Eval.ahead
  rw [h]

/-- A label around a match adds a node. -/
theorem Eval.labeled_of_matched {name : String} {eval : Eval V}
    (h : eval (openLabel name m) = (.matched, left)) :
    labeled env name eval m = (.matched, (closeLabel left).addNode m name none) := by
  rw [labeled_eq, h]

/-- A rule whose body matches adds its nodes and is left. -/
theorem Eval.body_of_matched {id : RuleId} {definition : Rule V} {key? : Option MemoKey}
    {eval : Eval V} (h : eval (enterRule id definition m) = (.matched, left)) :
    Eval.body env id definition key? eval m =
      (.matched, (contribute id definition m (leaveRule definition m left)).emit
        (.exit id (contribute id definition m (leaveRule definition m left)).offset true)) := by
  unfold Eval.body
  rw [h]

/-- An evaluation that comes to a match has gathered the forest of the match. -/
theorem Yields.gathers (h : Yields env a task m found) (hm : m.Valid env) :
    ∃ left, task.run env a m = (.matched, left) ∧ m.Gathers env left found := by
  induction h with
  | @terminal a e m left hterminal hmatched =>
      have hframe : m.Frame env left := Task.framed_expr hm hmatched
      refine ⟨left, hmatched, .terminal hframe.offset_le, ?_⟩
      have hrun : rewinding (Eval.terminal env e) m = (.matched, left) :=
        (expr_of_isTerminal hterminal m).symm.trans hmatched
      rcases exists_snd_terminal env e m with ⟨_, _, _, _, _, _, hleft⟩
      rw [← eq_of_rewinding_matched (congrArg Prod.fst hrun), hrun] at hleft
      have hnodes : left.nodes = m.nodes := by rw [show left = _ from hleft]
      exact hnodes.trans (nodesWith_nil m).symm
  | @action a action m left hmatched =>
      rcases place_of_runAction hmatched with ⟨hoffset, hnodes, -⟩
      exact ⟨left, rewinding_eq hmatched, .of_same (.action _) rfl hoffset hnodes⟩
  | seq hitems ih =>
      rcases ih hm with ⟨left, hrun, hgathers⟩
      exact ⟨_, rewinding_eq (keepingCommitment_eq hrun), hgathers.congr rfl rfl rfl rfl rfl⟩
  | done => exact ⟨_, rfl, .of_same (.nothing _) rfl rfl rfl⟩
  | @act a start inherited action items previous synthetic m middle rest hact hrest ih =>
      rcases place_of_runAction hact with ⟨hoffset, hnodes, hsuppressed⟩
      rcases ih (frame_runAction hm hact).valid with ⟨left, hrun, hgathers⟩
      refine ⟨left, (runElements_act_next hact).trans hrun, ?_⟩
      exact Gathers.chain hsuppressed (.of_same (.action _) rfl hoffset hnodes) hgathers
  | @part a start inherited item items previous synthetic m middle first rest hitem hfirst
      hmatched hrest ihfirst ihrest =>
      have hstart : Machine.Valid env { m with committed := inherited || start < m.offset } :=
        ⟨hm.within, hm.vars⟩
      have hframe :
          Machine.Frame env { m with committed := inherited || start < m.offset } middle :=
        Task.framed_expr hstart hmatched
      rcases ihfirst hstart with ⟨other, hother, hpart⟩
      cases hmatched.symm.trans hother
      rcases ihrest hframe.valid with ⟨left, hrun, hgathers⟩
      refine ⟨left, ?_, Gathers.chain hframe.suppressed (hpart.congr rfl rfl rfl rfl rfl) hgathers⟩
      rw [Task.run, elements_cons_of_isAction_eq_false hitem]
      exact (runElements_part_next hmatched).trans hrun
  | choice_once honce hround ih =>
      rcases ih hm with ⟨left, hrun, hgathers⟩
      exact ⟨left, rewinding_eq ((Eval.choice_once honce).trans hrun), hgathers⟩
  | choice_first htwo hround ih =>
      rcases ih ⟨hm.within, hm.vars⟩ with ⟨left, hrun, hgathers⟩
      exact ⟨_, rewinding_eq (Eval.choice_first htwo hrun (by simp)),
        hgathers.congr rfl rfl rfl rfl rfl⟩
  | @choice_second a items m middle found htwo hfirst hnoted hround ih =>
      have hopen : (openRound m).Valid env := ⟨hm.within, hm.vars⟩
      have hframe : (openRound m).Frame env middle := Task.framed hopen hfirst
      rcases alternatives_mismatched hfirst with ⟨hcursor, hnodes⟩
      have hoffset : middle.offset = m.offset := congrArg Cursor.offset hcursor
      rcases ih ⟨hframe.valid.within, hframe.valid.vars⟩ with ⟨left, hrun, hgathers⟩
      exact ⟨left, rewinding_eq ((Eval.choice_second htwo hfirst hnoted).trans hrun),
        hgathers.congr hoffset.symm hnodes.symm hframe.suppressed.symm rfl rfl⟩
  | alternative hitem ih =>
      rcases ih hm with ⟨left, hrun, hgathers⟩
      exact ⟨left, alternatives_last hrun (by simp), hgathers⟩
  | @alternative_next a item items m middle found hmore hmismatched hrest ih =>
      have hframe : m.Frame env middle := Task.framed_expr hm hmismatched
      rcases expr_mismatched hmismatched with ⟨hcursor, hnodes⟩
      have hoffset : middle.offset = m.offset := congrArg Cursor.offset hcursor
      rcases ih ⟨hframe.valid.within, hframe.valid.vars⟩ with ⟨left, hrun, hgathers⟩
      refine ⟨left, (alternatives_next (by simpa using hmore) hmismatched).trans hrun, ?_⟩
      exact hgathers.congr hoffset.symm hnodes.symm hframe.suppressed.symm rfl rfl
  | star hmany ih =>
      rcases ih hm with ⟨left, hrun, hgathers⟩
      exact ⟨_, rewinding_eq (keepingCommitment_eq hrun), hgathers.congr rfl rfl rfl rfl rfl⟩
  | @many_next a body m middle first rest hfirst hmatched hless hrest ihfirst ihrest =>
      have hstart : Machine.Valid env { m with committed := false } := ⟨hm.within, hm.vars⟩
      have hframe : Machine.Frame env { m with committed := false } middle :=
        Task.framed_expr hstart hmatched
      rcases ihfirst hstart with ⟨other, hother, hpart⟩
      cases hmatched.symm.trans hother
      rcases ihrest hframe.valid with ⟨left, hrun, hgathers⟩
      exact ⟨left, (Eval.many_next hmatched hless).trans hrun,
        Gathers.chain hframe.suppressed (hpart.congr rfl rfl rfl rfl rfl) hgathers⟩
  | many_last hlast hmatched hends ih =>
      rcases ih ⟨hm.within, hm.vars⟩ with ⟨left, hrun, hgathers⟩
      cases hmatched.symm.trans hrun
      exact ⟨_, Eval.many_last hmatched fun _ => hends, hgathers.congr rfl rfl rfl rfl rfl⟩
  | @many_end a body m left hmismatched =>
      rcases expr_mismatched hmismatched with ⟨hcursor, hnodes⟩
      exact ⟨left, Eval.many_last hmismatched (by simp),
        .of_same (.nothing _) rfl (congrArg Cursor.offset hcursor) hnodes⟩
  | @plus_next a body m middle first rest hfirst hmatched hless hrest ihfirst ihrest =>
      have hframe : m.Frame env middle := Task.framed_expr hm hmatched
      rcases ihfirst hm with ⟨other, hother, hpart⟩
      cases hmatched.symm.trans hother
      rcases ihrest hframe.valid with ⟨left, hrun, hgathers⟩
      have hwhole : Gathers env m left (.chain first rest) :=
        Gathers.chain hframe.suppressed hpart hgathers
      have hplus := Eval.plus_next hmatched hless
      rw [show many env ((Task.expr body).run env a) middle = _ from hrun] at hplus
      exact ⟨_, rewinding_eq hplus, hwhole.congr rfl rfl rfl rfl rfl⟩
  | plus_last hlast hmatched hends ih =>
      rcases ih hm with ⟨left, hrun, hgathers⟩
      cases hmatched.symm.trans hrun
      exact ⟨_, rewinding_eq (Eval.plus_last hmatched fun _ => hends),
        hgathers.congr rfl rfl rfl rfl rfl⟩
  | @optional a body m found hbody ih =>
      rcases ih ⟨hm.within, hm.vars⟩ with ⟨left, hrun, hgathers⟩
      exact ⟨_, rewinding_eq (optional_of_accepted (congrArg accepted hrun)),
        hgathers.congr rfl rfl rfl rfl rfl⟩
  | @optional_none a body m left hmismatched =>
      rcases expr_mismatched hmismatched with ⟨hcursor, hnodes⟩
      exact ⟨_, rewinding_eq (optional_of_accepted (congrArg accepted hmismatched)),
        .of_same (.nothing _) rfl (congrArg Cursor.offset hcursor) hnodes⟩
  | notAhead hmismatched =>
      exact ⟨_, rewinding_eq (ahead_of_run hmismatched), .of_same (.lookahead _) rfl rfl rfl⟩
  | ahead hmatched =>
      exact ⟨_, rewinding_eq (ahead_of_run hmatched), .of_same (.lookahead _) rfl rfl rfl⟩
  | @label a name body m inside found hbody hmatched ih =>
      have hopen : (openLabel name m).Valid env := ⟨hm.within, hm.vars⟩
      have hframe : (openLabel name m).Frame env inside := Task.framed_expr hopen hmatched
      rcases ih hopen with ⟨other, hother, hgathers⟩
      cases hmatched.symm.trans hother
      exact ⟨_, rewinding_eq (labeled_of_matched hmatched), hgathers.closeLabel hframe⟩
  | rule hcall ih =>
      rcases ih hm with ⟨left, hrun, hgathers⟩
      exact ⟨left, rewinding_eq hrun, hgathers⟩
  | @body a id definition m inside found hdefinition hknown hbody hmatched ih =>
      -- Counting a look-up that found nothing does not touch what is gathered.
      have hoffset : (countMiss env definition m).offset = m.offset := by rw [countMiss_eq]; rfl
      have hnodes : (countMiss env definition m).nodes = m.nodes := by rw [countMiss_eq]
      have hsuppressed : (countMiss env definition m).suppressed = m.suppressed := by
        rw [countMiss_eq]
      have henter : (enterRule id definition (countMiss env definition m)).Valid env := by
        rw [countMiss_eq]
        exact ⟨hm.within, m.vars.valid_enter⟩
      have hframe := Task.framed_expr henter hmatched
      rcases ih henter with ⟨other, hother, hgathers⟩
      cases hmatched.symm.trans hother
      have hwhole := Gathers.contribute hdefinition hframe hgathers
      rw [hoffset] at hwhole
      exact ⟨_, (invoke_body hdefinition hknown a).trans (body_of_matched hmatched),
        hwhole.congr hoffset.symm hnodes.symm hsuppressed.symm rfl rfl⟩

/-! ## The tree of a pass -/

/-- The tree of a forest for a match with a name and a span: the only tree of the forest if
it has the span, or else a node with the name over all of them. -/
def Tree.ofForest (name : String) (span : Span) : List Tree → Tree
  | [tree] => if tree.span = span then tree else .node name span none [tree]
  | forest => .node name span none forest

/-- The root node is that of the forest that was built. -/
theorem rootNode_eq_ofForest (name : String) {forest : List Tree}
    (h : left.nodes = forest.reverse) :
    rootNode name left = Tree.ofForest name ⟨0, left.offset⟩ forest := by
  have hforest : left.nodes.reverse = forest := by
    rw [h, List.reverse_reverse]
  unfold rootNode
  rw [hforest, h]
  match forest with
  | [] => rfl
  | [tree] => rfl
  | first :: second :: rest =>
      dsimp only [Tree.ofForest]
      split
      next hsingle =>
          have hlength := congrArg List.length hsingle
          simp at hlength
      next => rfl

/-- A pass that comes to a match reaches as far as that, and if a tree is asked for it is
that of the forest. -/
theorem PassYields.parseTree?_eq (h : PassYields env root found)
    (htree : env.settings.buildParseTree = true) :
    ∃ left, runPass env root = (.matched, left) ∧ found.Spans 0 left.offset ∧
      parseTree? env root left =
        some (Tree.ofForest (env.grammar.ruleName root) ⟨0, left.offset⟩
          (found.forest env.grammar)) := by
  rcases Yields.gathers h (valid_passStart env) with ⟨left, hrun, hgathers⟩
  have hoffset : (passStart env).offset = 0 := by
    rw [passStart_eq]
    rfl
  have hstart : (passStart env).nodesWith (found.forest env.grammar) =
      (found.forest env.grammar).reverse := by
    rw [passStart_eq]
    simp [nodesWith, Machine.start, htree]
  refine ⟨left, hrun, hoffset ▸ hgathers.spans, ?_⟩
  rw [parseTree?, if_pos htree]
  exact congrArg some (rootNode_eq_ofForest _ (hgathers.nodes.trans hstart))

/-- The tree of a successful parse is that of its match, which reaches over the whole
text: the only tree of its forest if that has the span of the text, or else a node with the
name of the root over the forest. -/
theorem tree_of_succeeded {grammar : Grammar V} {settings : Settings} {source : Source}
    {root : RuleId} {success : Success V}
    (h : (execute grammar settings source root).result = .ok (.succeeded success))
    (htree : settings.buildParseTree = true) :
    (∃ found, PassYields ⟨grammar, source, settings, .first⟩ root found) ∧
      ∀ found, PassYields ⟨grammar, source, settings, .first⟩ root found →
        found.Spans 0 (byteSize source.text) ∧
          success.tree? =
            some (Tree.ofForest (grammar.ruleName root) ⟨0, byteSize source.text⟩
              (found.forest grammar)) := by
  rcases exists_of_succeeded h with ⟨m, hrun, hend, rfl⟩
  refine ⟨exists_passYields (congrArg Prod.fst hrun), fun found hfound => ?_⟩
  rcases hfound.parseTree?_eq htree with ⟨left, hleft, hspans, hparse⟩
  cases hrun.symm.trans hleft
  have hvalid := valid_of_runPass hrun nofun
  have hoffset : m.offset = byteSize source.text := hvalid.within.offset_of_atEnd hend
  rw [← hoffset]
  exact ⟨hspans, hparse⟩

/-- A grammar of words and numbers between commas. -/
def listed : Grammar Nat where
  rules := #[
    ⟨"list", .seq [.rule ⟨1⟩, .star (.seq [.char ',', .rule ⟨1⟩])], {}⟩,
    ⟨"item", .choice [.rule ⟨2⟩, .rule ⟨3⟩], { skipNode := true }⟩,
    ⟨"word", .plus (.label "letter" (.range 'a' 'z')), { suppressSubnodes := true }⟩,
    ⟨"number", .seq [.notAhead (.char '0'), .plus (.label "digit" (.range '0' '9'))], {}⟩]

theorem tree_of_succeeded_listed :
    ∃ success found,
      (execute listed { buildParseTree := true } (.plain ['a', ',', '7']) ⟨0⟩).result =
        .ok (.succeeded success) ∧
      PassYields ⟨listed, .plain ['a', ',', '7'], { buildParseTree := true }, .first⟩ ⟨0⟩ found ∧
      success.tree? = some (Tree.ofForest "list" ⟨0, 3⟩ (found.forest listed)) ∧
      success.tree? = some (.node "list" ⟨0, 3⟩ (some ⟨0⟩) [
        .node "word" ⟨0, 1⟩ (some ⟨2⟩) [],
        .node "number" ⟨2, 3⟩ (some ⟨3⟩) [.node "digit" ⟨2, 3⟩ none []]]) := by
  have hresult :
      (execute listed { buildParseTree := true } (.plain ['a', ',', '7']) ⟨0⟩).result =
        .ok (.succeeded ⟨⟨3, 0, 3⟩, [],
          some (.node "list" ⟨0, 3⟩ (some ⟨0⟩) [
            .node "word" ⟨0, 1⟩ (some ⟨2⟩) [],
            .node "number" ⟨2, 3⟩ (some ⟨3⟩) [.node "digit" ⟨2, 3⟩ none []]]),
          ⟨6, 1, 0, 0, 0, 3, 0⟩⟩) := by
    cbv
  rcases tree_of_succeeded hresult rfl with ⟨⟨found, hfound⟩, hall⟩
  exact ⟨_, found, hresult, hfound, (hall found hfound).2, rfl⟩

end Peg
