import Mathlib.Data.List.Lex
import Peg.Tree

/-!
# The nodes of a tree in preorder

A node stands in front of all that is below it, and all that is below one child stands in front
of the next child.  Nodes may look the same and are told apart by their places: the place of a
node says into which child to go, again and again, on the way to it.  Preorder is then the
lexicographic order of the places, since a place is less than those that it leads on to, and
places that part are in the order of the children at which they do.

The nodes are visited with a stack of the trees still to be visited, the next one on top.  A step
puts the children of a tree in its place, last to first; what is still to come are the nodes of
the trees on the stack, from the top downwards.

Main results:

- `mem_located_iff`, `pairwise_located`: the nodes with their places.
- `walk_eq_flatMap`, `rows_eq_map_located`: walks and rows have them in the same order.
- `Visit.drains_walk`: a visit comes to its end, and to the nodes of a walk on the way.
- `find?_eq_some_iff`: a search stops at the least place of a node with the label.
- `visited_in_preorder`: visits and searches of a tree are in preorder.
-/

namespace Peg.Tree

variable {tree found : Tree} {place : List Nat}

/-! ## Places -/

/-- The node at a place: on the way to it, the numbers of the children to go into. -/
def at? : Tree → List Nat → Option Tree
  | tree, [] => some tree
  | tree, index :: place => tree.children[index]?.bind fun child => child.at? place

mutual

/-- The nodes of a tree with their places, each before those below it. -/
def located : Tree → List (List Nat × Tree)
  | node label span rule? children =>
    ([], node label span rule? children) :: locatedFrom 0 children

/-- The nodes of some children with their places, given the number of the first child. -/
def locatedFrom (index : Nat) : List Tree → List (List Nat × Tree)
  | [] => []
  | tree :: trees =>
    tree.located.map (fun (place, found) => (index :: place, found)) ++
      locatedFrom (index + 1) trees

end

theorem located_eq (tree : Tree) : tree.located = ([], tree) :: locatedFrom 0 tree.children := by
  cases tree
  rw [located, children]

/-- A place below some children begins with the number of one of them. -/
theorem mem_locatedFrom_iff {index : Nat} {trees : List Tree} :
    (place, found) ∈ locatedFrom index trees ↔
      ∃ skipped inner child, place = (index + skipped) :: inner ∧ trees[skipped]? = some child ∧
        (inner, found) ∈ child.located := by
  induction trees generalizing index with
  | nil => simp [locatedFrom]
  | cons tree trees ih =>
      rw [locatedFrom, List.mem_append, List.mem_map, ih]
      constructor
      · rintro (⟨⟨inner, _⟩, hfound, heq⟩ | ⟨skipped, inner, child, rfl, hchild, hfound⟩)
        · cases heq
          exact ⟨0, inner, tree, rfl, rfl, hfound⟩
        · refine ⟨skipped + 1, inner, child, ?_, hchild, hfound⟩
          rw [Nat.add_right_comm, Nat.add_assoc]
      · rintro ⟨skipped, inner, child, rfl, hchild, hfound⟩
        cases skipped with
        | zero =>
            cases hchild
            exact Or.inl ⟨(inner, found), hfound, rfl⟩
        | succ skipped =>
            refine Or.inr ⟨skipped, inner, child, ?_, hchild, hfound⟩
            rw [Nat.add_right_comm, Nat.add_assoc]

/-- The nodes with their places are those that stand at the places. -/
theorem mem_located_iff : (place, found) ∈ tree.located ↔ tree.at? place = some found := by
  -- The first number of the place tells which child the node is in.
  induction place generalizing tree with
  | nil =>
      rw [located_eq, List.mem_cons, mem_locatedFrom_iff, at?]
      simp [eq_comm]
  | cons index place ih =>
      rw [located_eq, List.mem_cons, mem_locatedFrom_iff, at?, Option.bind_eq_some_iff]
      simp [ih]

mutual

/-- The places of a tree ascend. -/
theorem pairwise_located : ∀ tree : Tree,
    tree.located.Pairwise fun entry later => entry.1 < later.1
  | node label span rule? children => by
    rw [located, List.pairwise_cons]
    refine ⟨?_, pairwise_locatedFrom 0 children⟩
    rintro ⟨place, found⟩ hfound
    rcases mem_locatedFrom_iff.1 hfound with ⟨skipped, inner, child, rfl, -, -⟩
    exact List.nil_lt_cons _ _

theorem pairwise_locatedFrom (index : Nat) : ∀ trees : List Tree,
    (locatedFrom index trees).Pairwise fun entry later => entry.1 < later.1
  | [] => .nil
  | tree :: trees => by
    rw [locatedFrom, List.pairwise_append, List.pairwise_map]
    refine ⟨?_, pairwise_locatedFrom (index + 1) trees, ?_⟩
    · refine (pairwise_located tree).imp fun hlt => ?_
      exact List.cons_lt_cons_iff.2 (Or.inr ⟨rfl, hlt⟩)
    · intro entry hentry later hlater
      rcases List.mem_map.1 hentry with ⟨⟨inner, found⟩, -, rfl⟩
      rcases later with ⟨place, other⟩
      rcases mem_locatedFrom_iff.1 hlater with ⟨skipped, inner', child, rfl, -, -⟩
      exact List.cons_lt_cons_iff.2 (Or.inl (by omega))

end

/-- Nodes that look the same stand at places of their own. -/
example :
    (node "sum" ⟨0, 5⟩ none
      [node "product" ⟨0, 3⟩ none [node "digit" ⟨0, 1⟩ none [], node "digit" ⟨2, 3⟩ none []],
        node "digit" ⟨4, 5⟩ none []]).located.map (fun (place, found) => (place, found.label)) =
      [([], "sum"), ([0], "product"), ([0, 0], "digit"), ([0, 1], "digit"), ([1], "digit")] := by
  decide

/-! ## Walks and rows -/

/-- Without their places, the nodes below some children are those of each child in turn. -/
theorem map_snd_locatedFrom (index : Nat) (trees : List Tree) :
    (locatedFrom index trees).map Prod.snd =
      trees.flatMap fun tree => tree.located.map Prod.snd := by
  induction trees generalizing index with
  | nil => rfl
  | cons tree trees ih =>
      rw [locatedFrom, List.map_append, List.map_map, ih, List.flatMap_cons]
      rfl

/-- Trees are walked one after another, each in the order of its places. -/
theorem walk_eq_flatMap (pending : List Tree) :
    walk pending = pending.flatMap fun tree => tree.located.map Prod.snd := by
  fun_induction walk pending with
  | case1 => rfl
  | case2 tree pending ih =>
      rw [ih, List.flatMap_append, List.flatMap_cons, located_eq, List.map_cons,
        map_snd_locatedFrom, List.cons_append]

/-- Without their places, the nodes are those of the walk. -/
theorem map_snd_located (tree : Tree) : tree.located.map Prod.snd = tree.descendants := by
  rw [descendants, walk_eq_flatMap, List.flatMap_singleton]

mutual

/-- The depth of a node is the length of its place. -/
theorem rows_eq_map_located (depth : Nat) : ∀ tree : Tree,
    tree.rows depth = tree.located.map fun (place, found) => (depth + place.length, found)
  | node label span rule? children => by
    rw [rows, located, List.map_cons, rowsOf_eq_map_locatedFrom depth 0 children]
    rfl

theorem rowsOf_eq_map_locatedFrom (depth index : Nat) : ∀ trees : List Tree,
    rowsOf (depth + 1) trees =
      (locatedFrom index trees).map fun (place, found) => (depth + place.length, found)
  | [] => rfl
  | tree :: trees => by
    rw [rowsOf, locatedFrom, List.map_append, List.map_map, rows_eq_map_located (depth + 1) tree,
      rowsOf_eq_map_locatedFrom depth (index + 1) trees]
    congr 1
    refine List.map_congr_left fun entry _ => ?_
    simp [Nat.add_assoc, Nat.add_comm 1]

end

/-- Some nodes are those of a tree in preorder: there is one of them for each place, in ascending
order of the places. -/
def InPreorder (tree : Tree) (nodes : List Tree) : Prop :=
  ∃ entries : List (List Nat × Tree), entries.map Prod.snd = nodes ∧
    (∀ place found, (place, found) ∈ entries ↔ tree.at? place = some found) ∧
      entries.Pairwise fun entry later => entry.1 < later.1

/-- The walk of a tree gives its nodes in preorder. -/
theorem inPreorder_descendants (tree : Tree) : tree.InPreorder tree.descendants :=
  ⟨tree.located, map_snd_located tree, fun _ _ => mem_located_iff, pairwise_located tree⟩

/-- The walk comes to every node once, so there are as many as the trees have together. -/
theorem length_walk (pending : List Tree) : (walk pending).length = totalSize pending := by
  fun_induction walk pending with
  | case1 => rfl
  | case2 tree pending ih =>
      rw [List.length_cons, ih, totalSize_append, totalSize, size_eq]
      omega

/-! ## Visits -/

/-- A visit to the nodes of a tree: the trees still to be visited, the next one last. -/
structure Visit where
  /-- The trees still to be visited. -/
  stack : Array Tree

namespace Visit

/-- The visit of a tree, before its first step. -/
def ofTree (tree : Tree) : Visit :=
  ⟨#[tree]⟩

/-- Take the last tree off the stack and put its children there, the first of them last: the
root of the tree is the next node.  On an empty stack there is no node, and none will come. -/
def next (visit : Visit) : Option Tree × Visit :=
  match visit.stack.back? with
  | none => (none, visit)
  | some tree => (some tree, ⟨visit.stack.pop ++ tree.children.reverse⟩)

/-- The nodes that a visit comes to, step by step, until it has no further one and stays so. -/
inductive Drains : Visit → List Tree → Prop
  | stop {visit : Visit} (hnext : visit.next = (none, visit)) : Drains visit []
  | step {visit rest : Visit} {tree : Tree} {nodes : List Tree}
      (hnext : visit.next = (some tree, rest)) (hrest : Drains rest nodes) :
      Drains visit (tree :: nodes)

/-- The trees still to be visited, the next one first. -/
def pending (visit : Visit) : List Tree :=
  visit.stack.toList.reverse

variable {visit : Visit} {tree : Tree} {trees nodes : List Tree}

theorem back?_stack (visit : Visit) : visit.stack.back? = visit.pending.head? := by
  rw [pending, List.head?_reverse, Array.getLast?_toList]

/-- A visit with nothing left gives no node and stays as it is. -/
theorem next_of_pending_nil (h : visit.pending = []) : visit.next = (none, visit) := by
  rw [next, back?_stack, h]
  rfl

/-- In a step the next tree gives way to its children. -/
theorem exists_next_of_pending_cons (h : visit.pending = tree :: trees) :
    ∃ rest : Visit, visit.next = (some tree, rest) ∧ rest.pending = tree.children ++ trees := by
  refine ⟨⟨visit.stack.pop ++ tree.children.reverse⟩, ?_, ?_⟩
  · rw [next, back?_stack, h]
    rfl
  · have htrees : visit.stack.toList.dropLast.reverse = trees := by
      rw [← List.tail_reverse, ← pending, h, List.tail_cons]
    rw [pending, Array.toList_appendList, List.reverse_append, List.reverse_reverse,
      Array.toList_pop, htrees]

/-- A visit comes to the nodes of the trees on its stack, from the top downwards. -/
theorem drains_walk (h : visit.pending = trees) : visit.Drains (walk trees) := by
  -- The stack, read from its top, holds what the walk has pending.
  fun_induction walk trees generalizing visit with
  | case1 => exact .stop (next_of_pending_nil h)
  | case2 tree trees ih =>
      rcases exists_next_of_pending_cons h with ⟨rest, hnext, hrest⟩
      exact .step hnext (ih hrest)

/-- A visit comes to one list of nodes only. -/
theorem Drains.unique {others : List Tree} (h : visit.Drains nodes)
    (hothers : visit.Drains others) : nodes = others := by
  induction h generalizing others with
  | stop hnext =>
      cases hothers with
      | stop => rfl
      | step hnext' => cases hnext.symm.trans hnext'
  | step hnext hrest ih =>
      cases hothers with
      | stop hnext' => cases hnext.symm.trans hnext'
      | step hnext' hrest' =>
          cases hnext.symm.trans hnext'
          rw [ih hrest']

/-- A search goes along a visit up to the first node with a label. -/
inductive Seeks (label : String) : Visit → Option Tree → Prop
  | stop {visit : Visit} (hnext : visit.next = (none, visit)) : Seeks label visit none
  | hit {visit rest : Visit} {tree : Tree} (hnext : visit.next = (some tree, rest))
      (hlabel : tree.label = label) : Seeks label visit (some tree)
  | pass {visit rest : Visit} {tree : Tree} {found? : Option Tree}
      (hnext : visit.next = (some tree, rest)) (hlabel : tree.label ≠ label)
      (hrest : Seeks label rest found?) : Seeks label visit found?

/-- A search finds the first node with the label among those that the visit comes to. -/
theorem Drains.seeks (h : visit.Drains nodes) (label : String) :
    visit.Seeks label (nodes.find? (·.label == label)) := by
  induction h with
  | stop hnext => exact .stop hnext
  | @step visit rest tree nodes hnext hrest ih =>
      by_cases hlabel : tree.label = label
      · have hfind : (tree :: nodes).find? (·.label == label) = some tree :=
          List.find?_cons_of_pos (by simpa using hlabel)
        rw [hfind]
        exact .hit hnext hlabel
      · rw [List.find?_cons_of_neg (by simpa using hlabel)]
        exact .pass hnext hlabel ih

end Visit

/-! ## Searches -/

/-- A node is the first with a label: it stands at the least place of all nodes that have it. -/
def IsFirst (tree : Tree) (label : String) (found : Tree) : Prop :=
  ∃ place, tree.at? place = some found ∧ found.label = label ∧
    ∀ earlier < place, ∀ other, tree.at? earlier = some other → other.label ≠ label

/-- What stands in front of a node are the nodes at lesser places. -/
theorem mem_front_iff {front back : List (List Nat × Tree)} {earlier : List Nat} {other : Tree}
    (hsplit : tree.located = front ++ (place, found) :: back) :
    (earlier, other) ∈ front ↔ earlier < place ∧ tree.at? earlier = some other := by
  have hordered := pairwise_located tree
  rw [hsplit, List.pairwise_append, List.pairwise_cons] at hordered
  rcases hordered with ⟨-, ⟨hback, -⟩, hfront⟩
  rw [← mem_located_iff, hsplit, List.mem_append, List.mem_cons]
  constructor
  · intro hmem
    exact ⟨hfront _ hmem _ List.mem_cons_self, Or.inl hmem⟩
  · rintro ⟨hlt, hmem | heq | hmem⟩
    · exact hmem
    · cases heq
      exact absurd hlt (lt_irrefl place)
    · exact absurd hlt (lt_asymm (hback _ hmem))

/-- A search stops at the least place of a node with the label. -/
theorem find?_eq_some_iff {label : String} :
    tree.find? label = some found ↔ tree.IsFirst label found := by
  rw [find?, ← map_snd_located, List.find?_map, Option.map_eq_some_iff]
  constructor
  · rintro ⟨⟨place, _⟩, hfind, rfl⟩
    rcases List.find?_eq_some_iff_append.1 hfind with ⟨hlabel, front, back, hsplit, hfront⟩
    refine ⟨place, mem_located_iff.1 (List.mem_of_find?_eq_some hfind), by simpa using hlabel, ?_⟩
    intro earlier hlt other hother
    simpa using hfront (earlier, other) ((mem_front_iff hsplit).2 ⟨hlt, hother⟩)
  · rintro ⟨place, hplace, hlabel, hleast⟩
    rcases List.append_of_mem (mem_located_iff.2 hplace) with ⟨front, back, hsplit⟩
    refine ⟨(place, found), ?_, rfl⟩
    refine List.find?_eq_some_iff_append.2 ⟨by simpa using hlabel, front, back, hsplit, ?_⟩
    rintro ⟨earlier, other⟩ hmem
    rcases (mem_front_iff hsplit).1 hmem with ⟨hlt, hother⟩
    simpa using hleast earlier hlt other hother

/-- The nodes of a tree are those that stand somewhere in it. -/
theorem mem_descendants_iff : found ∈ tree.descendants ↔ ∃ place, tree.at? place = some found := by
  rw [← map_snd_located, List.mem_map]
  constructor
  · rintro ⟨⟨place, _⟩, hmem, rfl⟩
    exact ⟨place, mem_located_iff.1 hmem⟩
  · rintro ⟨place, hplace⟩
    exact ⟨(place, found), mem_located_iff.2 hplace, rfl⟩

/-- The nodes of a tree are visited in preorder: a visit to them comes to its end after as many
steps as there are nodes, and what it comes to are the rows of the tree, the nodes at all of its
places, each once and in the order of the places.  A search along the visit finds the first of
them with its label, unless there is none. -/
theorem visited_in_preorder (tree : Tree) :
    (∀ nodes, (Visit.ofTree tree).Drains nodes ↔ nodes = tree.descendants) ∧
      tree.descendants.length = tree.size ∧
      tree.descendants = (tree.rows 0).map Prod.snd ∧
      tree.InPreorder tree.descendants ∧
      ∀ label,
        (Visit.ofTree tree).Seeks label (tree.find? label) ∧
        (∀ found, tree.find? label = some found ↔ tree.IsFirst label found) ∧
        (tree.find? label = none ↔
          ∀ place found, tree.at? place = some found → found.label ≠ label) := by
  have hdrains : (Visit.ofTree tree).Drains tree.descendants := Visit.drains_walk rfl
  refine ⟨fun nodes => ⟨fun h => h.unique hdrains, ?_⟩, ?_, ?_, inPreorder_descendants tree,
    fun label => ⟨hdrains.seeks label, fun found => find?_eq_some_iff, ?_⟩⟩
  · rintro rfl
    exact hdrains
  · rw [descendants, length_walk, totalSize, totalSize, Nat.add_zero]
  · rw [rows_eq_map_located, List.map_map, ← map_snd_located]
    rfl
  · rw [find?_eq_none_iff]
    simp only [mem_descendants_iff, forall_exists_index]
    exact forall_comm

end Peg.Tree
