/-!
# Directed graphs

A `Digraph` has numbered nodes. `Digraph.components?` finds its strongly connected components, the
classes of nodes that reach each other, in one depth-first search: nodes are ranked in the order in
which they are met and stay on a stack until the component of the one met first is complete. The low
mark of a node is the least rank that the search has seen from it, and a node whose low mark is its
own rank closes a component. `Digraph.cycles?` keeps the components that hold a cycle.

A look-up of something that is no node has no answer, and then the search has none. On a graph whose
edges all lead to nodes there always is one.
-/

namespace Oxidize

/-- The targets of the edges of each node. The nodes are the numbers below `targets.size`. -/
structure Digraph where
  targets : Array (List Nat)

namespace Digraph

/-- How many nodes there are. -/
def size (g : Digraph) : Nat :=
  g.targets.size

/-- What a search knows of a node. -/
structure Mark where
  /-- When the node was met. -/
  rank : Option Nat
  /-- The least rank seen from the node. -/
  low : Nat
  onStack : Bool

/-- The mark of a node that was not met. -/
def Mark.unmet : Mark :=
  ⟨none, 0, false⟩

/-- A search under way. -/
structure Search where
  marks : Array Mark
  /-- The nodes whose component is not complete, the last met first. -/
  stack : List Nat
  /-- The rank of the next node. -/
  next : Nat
  /-- The components found, the last one first. -/
  found : List (List Nat)

namespace Search

/-- The search before its first step. Reference: `Tarjan.new`. -/
def start (size : Nat) : Search :=
  ⟨Array.replicate size .unmet, [], 0, []⟩

/-- What is known of a node. -/
def mark? (s : Search) (node : Nat) : Option Mark :=
  s.marks[node]?

/-- The search with another mark of a node. -/
def setMark? (s : Search) (node : Nat) (mark : Mark) : Option Search :=
  if node < s.marks.size then some { s with marks := s.marks.setIfInBounds node mark } else none

/-- A node is met and put on the stack. Reference: the start of `Tarjan.connect`. -/
def enter? (s : Search) (node : Nat) : Option Search := do
  let marked ← s.setMark? node ⟨some s.next, s.next, true⟩
  return { marked with stack := node :: s.stack, next := s.next + 1 }

/-- A rank is seen from a node. -/
def lower? (s : Search) (node : Nat) (rank : Nat) : Option Search := do
  let mark ← s.mark? node
  s.setMark? node { mark with low := min mark.low rank }

/-- The nodes down to the given one are taken off a stack: those nodes, the rest of the stack and
the new marks. Reference: the inner loop at the end of `Tarjan.connect`. -/
def popThrough (node : Nat) : List Nat → Array Mark → Option (List Nat × List Nat × Array Mark)
  | [], marks => some ([], [], marks)
  | top :: rest, marks => do
    let mark ← marks[top]?
    let marks := marks.setIfInBounds top { mark with onStack := false }
    if top = node then
      return ([top], rest, marks)
    else
      let (popped, rest, marks) ← popThrough node rest marks
      return (top :: popped, rest, marks)

/-- All edges of a node were followed. A node from which nothing met earlier was seen closes the
component of all that is on the stack down to it. Reference: the end of `Tarjan.connect`. -/
def leave? (s : Search) (node : Nat) : Option Search := do
  let mark ← s.mark? node
  if some mark.low = mark.rank then
    let (component, stack, marks) ← popThrough node s.stack s.marks
    return { s with marks, stack, found := component :: s.found }
  else return s

/-- The edges from a node to the targets are followed, on to targets that were not met by `visit`.
Reference: the loop over edges in `Tarjan.connect`. -/
def follow (visit : Nat → Search → Option Search) (node : Nat) :
    List Nat → Search → Option Search
  | [], s => some s
  | target :: targets, s => do
    let mark ← s.mark? target
    match mark.rank with
    | none =>
      let visited ← visit target s
      let lowered ← visited.lower? node (← visited.mark? target).low
      follow visit node targets lowered
    | some rank =>
      if mark.onStack then
        follow visit node targets (← s.lower? node rank)
      else follow visit node targets s

end Search

/-- A node is met, its edges are followed, and it is left, in at most `depth` nested visits.
Reference: `Tarjan.connect`. -/
def visit (g : Digraph) : Nat → Nat → Search → Option Search
  | 0, _, _ => none
  | depth + 1, node, s => do
    let entered ← s.enter? node
    let followed ← Search.follow (g.visit depth) node (← g.targets[node]?) entered
    followed.leave? node

/-- Every one of the nodes is visited that was not met before. Visits nest at most as deep as there
are nodes. Reference: `Tarjan.run`. -/
def visitAll (g : Digraph) : List Nat → Search → Option Search
  | [], s => some s
  | node :: nodes, s => do
    match (← s.mark? node).rank with
    | none => g.visitAll nodes (← g.visit g.size node s)
    | some _ => g.visitAll nodes s

/-- The strongly connected components, in the order in which they are complete. -/
def components? (g : Digraph) : Option (List (List Nat)) := do
  let s ← g.visitAll (List.range g.size) (.start g.size)
  return s.found.reverse

/-- Whether a component holds a cycle: it has several nodes, or its node has an edge to itself.
Reference: the filter of `find_value_cycles`. -/
def isCyclic? (g : Digraph) (component : List Nat) : Option Bool := do
  if component.length > 1 then
    return true
  else
    let node ← component[0]?
    return (← g.targets[node]?).contains node

/-- Those of the components that hold a cycle. -/
def cyclesAmong? (g : Digraph) : List (List Nat) → Option (List (List Nat))
  | [] => some []
  | component :: rest => do
    let cyclic ← g.isCyclic? component
    let others ← g.cyclesAmong? rest
    return if cyclic then component :: others else others

/-- The components that hold a cycle. -/
def cycles? (g : Digraph) : Option (List (List Nat)) := do
  g.cyclesAmong? (← g.components?)

end Digraph

end Oxidize
