import HeapLens.Graph.Postorder

/-!
# Immediate dominators

A table names a candidate for the immediate dominator of each vertex. A pass takes the vertices in
reverse postorder and gives each of them the nearest common ancestor, in the tree that the table
describes, of its predecessors that have a candidate; passes are repeated until one of them changes
nothing. Following candidates raises the rank, the position in postorder.
-/

set_option autoImplicit false

namespace HeapLens.Graph

abbrev Candidates := Array (Option Nat)

abbrev Ranks := Array Nat

def ranksOf (g : Graph) (order : List Nat) : Ranks :=
  order.zipIdx.foldl (fun ranks (v, i) => ranks.setIfInBounds v i) (Array.replicate (g.size + 1) 0)

def predecessors (g : Graph) (order : List Nat) : Array (List Nat) :=
  order.foldl
    (fun table v => (g.targets v).foldl (fun table w => table.modify w (v :: ·)) table)
    (Array.replicate (g.size + 1) [])

def candidate (table : Candidates) (v : Nat) : Nat :=
  (table[v]?.getD none).getD v

def rank (ranks : Ranks) (v : Nat) : Nat :=
  ranks[v]?.getD 0

/-- Lets the vertex of lower rank climb, up to `steps` times, until both meet. -/
def climb (table : Candidates) (ranks : Ranks) : Nat → Nat → Nat → Nat
  | 0, a, _ => a
  | steps + 1, a, b =>
    if a = b then a
    else if rank ranks a < rank ranks b then climb table ranks steps (candidate table a) b
    else climb table ranks steps a (candidate table b)

/--
The nearest common ancestor of two vertices: each of them climbs less often than there are ranks.
-/
def meet (table : Candidates) (ranks : Ranks) (a b : Nat) : Nat :=
  climb table ranks (2 * ranks.size) a b

def meetAll (table : Candidates) (ranks : Ranks) (vertices : List Nat) : Option Nat :=
  vertices.foldl
    (fun found v =>
      match table[v]?.getD none, found with
      | none, _ => found
      | some _, none => some v
      | some _, some w => some (meet table ranks v w))
    none

def pass (ranks : Ranks) (preds : Array (List Nat)) (order : List Nat) (table : Candidates) :
    Candidates :=
  order.foldl
    (fun table v => table.setIfInBounds v (meetAll table ranks (preds[v]?.getD [])))
    table

def settle (ranks : Ranks) (preds : Array (List Nat)) (order : List Nat) :
    Nat → Candidates → Candidates
  | 0, table => table
  | count + 1, table =>
    let next := pass ranks preds order table
    if next = table then table else settle ranks preds order count next

/-- Each pass but the last raises the rank of some candidate, so this many passes are enough. -/
def enoughPasses (g : Graph) : Nat := (g.size + 1) * (g.size + 2) + 1

/-- The settled candidates; the vertex above the roots is its own. -/
def dominatorTable (g : Graph) : Candidates :=
  let reversed := g.reversePostorder
  let order := reversed.reverse
  let start := (Array.replicate (g.size + 1) none).setIfInBounds g.top (some g.top)
  settle (g.ranksOf order) (g.predecessors order) reversed.tail g.enoughPasses start

/--
The immediate dominator of each node; none for a node that only the vertex above the roots
dominates.
-/
def immediateDominators (g : Graph) : Array (Option Nat) :=
  (g.dominatorTable.take g.size).map fun candidate => candidate.filter (· ≠ g.top)

end HeapLens.Graph
