import Mathlib
import Peg.Proofs.Repair.Unrepaired
import Peg.Proofs.Tree.Forest

/-!
# How the nodes of a parse tree are arranged

A match reaches from one offset to another, and so does its forest: its trees stand between
the two, one behind the other, and the same holds below every node, since the nodes below it
are the forest of a part of the match.  This is so in a repairing pass as well, where a
terminal that was stood in for is a match of no length.

Main results:

- `Match.Spans.arranged`: the forest of a match is arranged between the ends of the match.
- `trees_wellNested`: every tree that a parse returns is well nested, from the start of the
  text to where its root has ended.
-/

namespace Peg

open Text

variable {V : Type} {grammar : Grammar V}

/-! ## Well nested trees -/

/-- A rule of a grammar builds nodes, and may have one over some trees: over none at all if
it suppresses what is below it. -/
def Grammar.BuildsOver (grammar : Grammar V) (id : RuleId) (below : List Tree) : Prop :=
  ∃ rule, grammar.rule? id = some rule ∧ rule.options.suppressNode = false ∧
    rule.options.skipNode = false ∧ (rule.options.suppressSubnodes = true → below = [])

namespace Tree

/-- A node is in order with what is right below it: its span does not end in front of its
start, the nodes below it are within its span and one behind the other, and if it belongs to
a rule, then to one that may have built it. -/
structure Proper (grammar : Grammar V) (tree : Tree) : Prop where
  start_le : tree.span.start ≤ tree.span.stop
  within : ∀ child ∈ tree.children,
    tree.span.start ≤ child.span.start ∧ child.span.stop ≤ tree.span.stop
  ordered : tree.children.Pairwise fun child next => child.span.stop ≤ next.span.start
  builds : ∀ id, tree.rule? = some id → grammar.BuildsOver id tree.children

/-- All nodes of a tree are in order. -/
def WellNested (grammar : Grammar V) (tree : Tree) : Prop :=
  ∀ node ∈ tree.descendants, node.Proper grammar

theorem wellNested_iff {tree : Tree} :
    tree.WellNested grammar ↔
      tree.Proper grammar ∧ ∀ child ∈ tree.children, child.WellNested grammar := by
  rcases tree with ⟨label, span, rule?, children⟩
  unfold WellNested
  rw [descendants_node, List.forall_mem_cons]
  refine and_congr_right fun _ => ?_
  simp only [mem_walk_iff, Tree.children]
  constructor
  · intro h child hchild node hnode
    exact h node ⟨child, hchild, hnode⟩
  · rintro h node ⟨child, hchild, hnode⟩
    exact h child hchild node hnode

end Tree

/-! ## Arranged forests -/

/-- Trees that are in order stand between two offsets, one behind the other. -/
structure Arranged (grammar : Grammar V) (start stop : Nat) (forest : List Tree) : Prop where
  le : start ≤ stop
  within : ∀ tree ∈ forest, start ≤ tree.span.start ∧ tree.span.stop ≤ stop
  ordered : forest.Pairwise fun tree next => tree.span.stop ≤ next.span.start
  wellNested : ∀ tree ∈ forest, tree.WellNested grammar

variable {start middle stop : Nat} {forest : List Tree}

theorem arranged_nil (h : start ≤ stop) : Arranged grammar start stop [] :=
  ⟨h, nofun, .nil, nofun⟩

/-- Forests on both sides of an offset. -/
theorem Arranged.append {rest : List Tree} (h : Arranged grammar start middle forest)
    (hrest : Arranged grammar middle stop rest) :
    Arranged grammar start stop (forest ++ rest) where
  le := Nat.le_trans h.le hrest.le
  within := by
    intro tree htree
    rcases List.mem_append.1 htree with hfirst | hlast
    · have hbounds := h.within tree hfirst
      exact ⟨hbounds.1, Nat.le_trans hbounds.2 hrest.le⟩
    · have hbounds := hrest.within tree hlast
      exact ⟨Nat.le_trans h.le hbounds.1, hbounds.2⟩
  ordered := by
    rw [List.pairwise_append]
    refine ⟨h.ordered, hrest.ordered, fun tree htree next hnext => ?_⟩
    exact Nat.le_trans (h.within tree htree).2 (hrest.within next hnext).1
  wellNested := List.forall_mem_append.2 ⟨h.wellNested, hrest.wellNested⟩

/-- A node over a forest that reaches as far as the node does. -/
theorem Arranged.wellNested_node (h : Arranged grammar start stop forest) (label : String)
    {rule? : Option RuleId}
    (hbuilds : ∀ id, rule? = some id → grammar.BuildsOver id forest) :
    (Tree.node label ⟨start, stop⟩ rule? forest).WellNested grammar :=
  Tree.wellNested_iff.2 ⟨⟨h.le, h.within, h.ordered, hbuilds⟩, h.wellNested⟩

theorem arranged_singleton {tree : Tree} (h : tree.WellNested grammar)
    (hspan : tree.span = ⟨start, stop⟩) : Arranged grammar start stop [tree] where
  le := by
    have hproper := (Tree.wellNested_iff.1 h).1.start_le
    rwa [hspan] at hproper
  within := by
    rw [List.forall_mem_singleton, hspan]
    exact ⟨Nat.le_refl _, Nat.le_refl _⟩
  ordered := List.pairwise_singleton _ _
  wellNested := List.forall_mem_singleton.2 h

/-- What the options of a rule make of an arranged forest is arranged. -/
theorem Arranged.rule {id : RuleId} {definition : Rule V}
    (hdefinition : grammar.rule? id = some definition) (h : Arranged grammar start stop forest) :
    Arranged grammar start stop (definition.forest id ⟨start, stop⟩ forest) := by
  unfold Rule.forest
  have hkept : Arranged grammar start stop
      (if definition.options.suppressSubnodes then [] else forest) := by
    split
    next => exact arranged_nil h.le
    next => exact h
  by_cases hnode : definition.options.suppressNode = true
  · rw [if_pos hnode]
    exact arranged_nil h.le
  · rw [if_neg hnode]
    by_cases hskip : definition.options.skipNode = true
    · rw [if_pos hskip]
      exact hkept
    · rw [if_neg hskip]
      refine arranged_singleton (hkept.wellNested_node definition.name ?_) rfl
      rintro _ ⟨⟩
      refine ⟨definition, hdefinition, eq_false_of_ne_true hnode, eq_false_of_ne_true hskip, ?_⟩
      intro hsubnodes
      exact if_pos hsubnodes

/-- The forest of a match is arranged between the ends of the match. -/
theorem Match.Spans.arranged {found : Match} (h : found.Spans start stop) :
    Arranged grammar start stop (found.forest grammar) := by
  induction h with
  | terminal hle => exact arranged_nil hle
  | action place | lookahead place | nothing place => exact arranged_nil (Nat.le_refl place)
  | chain hfirst hrest ihfirst ihrest => exact ihfirst.append ihrest
  | @label name body start stop hbody ih =>
      exact arranged_singleton (ih.wellNested_node name nofun) rfl
  | @rule id body start stop hbody ih =>
      unfold Match.forest
      split
      next => exact arranged_nil ih.le
      next definition hdefinition => exact ih.rule hdefinition

/-- The tree of an arranged forest. -/
theorem Arranged.ofForest (h : Arranged grammar start stop forest) (name : String) :
    (Tree.ofForest name ⟨start, stop⟩ forest).span = ⟨start, stop⟩ ∧
      (Tree.ofForest name ⟨start, stop⟩ forest).WellNested grammar := by
  have hwrapped : (Tree.node name ⟨start, stop⟩ none forest).WellNested grammar :=
    h.wellNested_node name nofun
  unfold Tree.ofForest
  split
  next tree =>
      by_cases hspan : tree.span = ⟨start, stop⟩
      · rw [if_pos hspan]
        exact ⟨hspan, h.wellNested tree (List.mem_singleton_self tree)⟩
      · rw [if_neg hspan]
        exact ⟨rfl, hwrapped⟩
  next => exact ⟨rfl, hwrapped⟩

/-! ## The trees of a parse -/

/-- A tree is well nested and reaches from the start of the text to where a pass has left
its root. -/
def Tree.NestedIn (env : Env V) (root : RuleId) (tree : Tree) : Prop :=
  tree.WellNested env.grammar ∧
    ∃ left, runPass env root = (.matched, left) ∧ tree.span = ⟨0, left.offset⟩

/-- The tree of a pass that matched. -/
theorem nestedIn_of_parseTree? {env : Env V} {root : RuleId} {left : Machine V} {tree : Tree}
    (hrun : runPass env root = (.matched, left)) (htree : parseTree? env root left = some tree) :
    tree.NestedIn env root ∧ tree.span.stop = left.offset := by
  have hbuild : env.settings.buildParseTree = true := by
    by_contra hnone
    rw [parseTree?, if_neg hnone] at htree
    cases htree
  rcases exists_passYields (congrArg Prod.fst hrun) with ⟨found, hfound⟩
  rcases hfound.parseTree?_eq hbuild with ⟨other, hother, hspans, hparse⟩
  cases hrun.symm.trans hother
  cases htree.symm.trans hparse
  have harranged : Arranged env.grammar 0 left.offset (found.forest env.grammar) :=
    hspans.arranged
  rcases harranged.ofForest (env.grammar.ruleName root) with ⟨hspan, hnested⟩
  exact ⟨⟨hnested, left, hrun, hspan⟩, congrArg Span.stop hspan⟩

/-- Every tree that a parse returns is well nested and reaches from the start of the text to
where its root has ended: the tree of a successful parse, where the first pass has left the
root, and the tree of a repaired one, where the second pass has. -/
theorem trees_wellNested (grammar : Grammar V) (settings : Settings) (source : Source)
    (root : RuleId) :
    (∀ success tree,
      (execute grammar settings source root).result = .ok (.succeeded success) →
        success.tree? = some tree →
          tree.NestedIn ⟨grammar, source, settings, .first⟩ root ∧
            success.stop = source.position tree.span.stop) ∧
      ∀ failure recovered tree,
        (execute grammar settings source root).result = .ok (.failed failure) →
          failure.recovered? = some recovered → recovered.tree? = some tree →
            tree.NestedIn (secondPass grammar settings source root) root ∧
              recovered.stop = source.position tree.span.stop := by
  refine ⟨fun success tree hsucceeded htree => ?_,
    fun failure recovered tree hfailed hrecovered htree => ?_⟩
  · rcases exists_of_succeeded hsucceeded with ⟨m, hrun, -, rfl⟩
    rcases nestedIn_of_parseTree? hrun htree with ⟨hnested, hstop⟩
    exact ⟨hnested, congrArg source.position hstop.symm⟩
  · rcases exists_of_failed hfailed with ⟨-, errorOffset, rfl, -, hfrom⟩
    rw [hrecovered] at hfrom
    split at hfrom
    next =>
        rcases recoveredFrom?_eq_some_iff.1 hfrom.symm with ⟨left, hrun, rfl⟩
        rcases nestedIn_of_parseTree? hrun htree with ⟨hnested, hstop⟩
        exact ⟨hnested, congrArg source.position hstop.symm⟩
    next => cases hfrom

/-- A grammar of two letters in parentheses, with a comma between them. -/
def paired : Grammar Nat where
  rules := #[
    ⟨"pair", .seq [.char '(', .rule ⟨1⟩, .label "comma" (.char ','), .rule ⟨1⟩, .char ')'], {}⟩,
    ⟨"letter", .label "lower" (.range 'a' 'z'), { suppressSubnodes := true }⟩]

/-- A pair as it should be, and one without its comma. -/
theorem trees_wellNested_paired :
    (∃ success tree,
      (execute paired { buildParseTree := true } (.plain ['(', 'a', ',', 'b', ')']) ⟨0⟩).result =
        .ok (.succeeded success) ∧
      success.tree? = some tree ∧ tree.children.length = 3 ∧ tree.WellNested paired) ∧
    ∃ failure recovered tree,
      (execute paired { buildParseTree := true, recovery := true }
        (.plain ['(', 'a', 'b', ')']) ⟨0⟩).result = .ok (.failed failure) ∧
      failure.recovered? = some recovered ∧ recovered.tree? = some tree ∧
      tree.children.map Tree.span = [⟨1, 2⟩, ⟨2, 2⟩, ⟨2, 3⟩] ∧ tree.WellNested paired := by
  have hwhole :
      (execute paired { buildParseTree := true } (.plain ['(', 'a', ',', 'b', ')']) ⟨0⟩).result =
        .ok (.succeeded ⟨⟨5, 0, 5⟩, [],
          some (.node "pair" ⟨0, 5⟩ (some ⟨0⟩) [.node "letter" ⟨1, 2⟩ (some ⟨1⟩) [],
            .node "comma" ⟨2, 3⟩ none [], .node "letter" ⟨3, 4⟩ (some ⟨1⟩) []]),
          ⟨3, 0, 0, 0, 0, 2, 0⟩⟩) := by
    cbv
  have hshort :
      (execute paired { buildParseTree := true, recovery := true }
        (.plain ['(', 'a', 'b', ')']) ⟨0⟩).result =
        .ok (.failed ⟨⟨2, 0, 2⟩, ["comma"], some 'b',
          some ⟨⟨4, 0, 4⟩, true, [], [⟨⟨2, 0, 2⟩, "comma"⟩],
            some (.node "pair" ⟨0, 4⟩ (some ⟨0⟩) [.node "letter" ⟨1, 2⟩ (some ⟨1⟩) [],
              .node "comma" ⟨2, 2⟩ none [], .node "letter" ⟨2, 3⟩ (some ⟨1⟩) []])⟩,
          ⟨5, 0, 0, 0, 0, 2, 1⟩⟩) := by
    cbv
  have hfirst := (trees_wellNested paired { buildParseTree := true }
    (.plain ['(', 'a', ',', 'b', ')']) ⟨0⟩).1 _ _ hwhole rfl
  have hsecond := (trees_wellNested paired { buildParseTree := true, recovery := true }
    (.plain ['(', 'a', 'b', ')']) ⟨0⟩).2 _ _ _ hshort rfl rfl
  exact ⟨⟨_, _, hwhole, rfl, rfl, hfirst.1.1⟩, _, _, _, hshort, rfl, rfl, rfl, hsecond.1.1⟩

end Peg
