import Peg.Expr.Basic

/-!
# Parse trees

A node of a parse tree is a rule or a label that matched, with the span it
matched and the nodes below it.  All nodes of a tree are visited by a walk that
keeps a list of the subtrees still to be visited.

Main results:

- `walk_append`: pending trees are visited one after another.
- `mem_walk_iff`: what is visited from them is in one of them.
- `descendants_node`: a node is visited before its children, and these in
  order.
- `find?_eq_none_iff`: a search by label fails exactly if no node has the
  label.
-/

namespace Peg

open Text

/-- A node of a parse tree and all below it. -/
inductive Tree where
  /-- A node with the name of a rule or a label, the matched span, the number of
  the rule unless it is a label, and the nodes below it. -/
  | node (label : String) (span : Span) (rule? : Option RuleId) (children : List Tree)
  deriving Repr, Inhabited

namespace Tree

/-- The name of the rule or label. -/
def label : Tree → String
  | node label _ _ _ => label

/-- The span that was matched. -/
def span : Tree → Span
  | node _ span _ _ => span

/-- The number of the rule; labels have none. -/
def rule? : Tree → Option RuleId
  | node _ _ rule? _ => rule?

/-- The nodes right below. -/
def children : Tree → List Tree
  | node _ _ _ children => children

/-- The text that was matched. -/
def matched (tree : Tree) (text : List Char) : List Char :=
  tree.span.slice text

mutual

/-- Number of nodes. -/
def size : Tree → Nat
  | node _ _ _ children => totalSize children + 1

/-- Number of nodes in some trees. -/
def totalSize : List Tree → Nat
  | [] => 0
  | tree :: trees => tree.size + totalSize trees

end

@[simp] theorem totalSize_append (front back : List Tree) :
    totalSize (front ++ back) = totalSize front + totalSize back := by
  induction front with
  | nil => simp [totalSize]
  | cons tree front ih => simp [totalSize, ih, Nat.add_assoc]

/-- A node counts itself and what is below it. -/
theorem size_eq (tree : Tree) : tree.size = totalSize tree.children + 1 := by
  cases tree
  simp [size, children]

/-- Visit the nodes of pending trees: take the first tree, visit its root, and
put its children in front of the others. -/
def walk : List Tree → List Tree
  | [] => []
  | tree :: pending => tree :: walk (tree.children ++ pending)
termination_by pending => totalSize pending
decreasing_by
  simp [totalSize, size_eq]

/-- Pending trees are visited one after another. -/
theorem walk_append (front back : List Tree) : walk (front ++ back) = walk front ++ walk back := by
  fun_induction walk front with
  | case1 => simp
  | case2 tree pending ih => rw [List.cons_append, walk, ← List.append_assoc, ih, List.cons_append]

/-- A node and all below it, each as the tree it is the root of. -/
def descendants (tree : Tree) : List Tree :=
  walk [tree]

/-- What is visited from pending trees is in one of them. -/
theorem mem_walk_iff {node : Tree} {pending : List Tree} :
    node ∈ walk pending ↔ ∃ tree ∈ pending, node ∈ tree.descendants := by
  induction pending with
  | nil => simp [walk]
  | cons tree pending ih =>
    have hwalk : walk (tree :: pending) = tree.descendants ++ walk pending :=
      walk_append [tree] pending
    rw [hwalk, List.mem_append, ih]
    simp

/-- The first node with a label. -/
def find? (tree : Tree) (label : String) : Option Tree :=
  tree.descendants.find? (·.label == label)

/-- All nodes with a label. -/
def findAll (tree : Tree) (label : String) : List Tree :=
  tree.descendants.filter (·.label == label)

mutual

/-- The nodes with their depths, each before those below it. -/
def rows (depth : Nat) : Tree → List (Nat × Tree)
  | node label span rule? children =>
    (depth, node label span rule? children) :: rowsOf (depth + 1) children

/-- The nodes of some trees with their depths, one tree after another. -/
def rowsOf (depth : Nat) : List Tree → List (Nat × Tree)
  | [] => []
  | tree :: trees => tree.rows depth ++ rowsOf depth trees

end

/-- A node is visited before its children, and these in order. -/
theorem descendants_node (label : String) (span : Span) (rule? : Option RuleId)
    (children : List Tree) :
    (node label span rule? children).descendants =
      node label span rule? children :: walk children := by
  rw [descendants, walk, Tree.children, List.append_nil]

/-- A search by label fails exactly if no node has the label. -/
theorem find?_eq_none_iff {tree : Tree} {label : String} :
    tree.find? label = none ↔ ∀ node ∈ tree.descendants, node.label ≠ label := by
  simp [find?]

end Tree

end Peg
