import HeapLens.Graph.Basic

/-!
# Depth-first order

`postorder` lists the vertices that are reachable from the roots, each one after everything that
was found through it, so the vertex above the roots stands last.
-/

set_option autoImplicit false

namespace HeapLens.Graph

/-- A vertex that has been entered, and those of its targets that have not been looked at. -/
abbrev Open := Nat × List Nat

/-- The steps that open vertices take without a new vertex. -/
def pending : List Open → Nat
  | [] => 0
  | (_, targets) :: below => targets.length + 1 + pending below

/--
Walks on from the open vertices, the innermost one first. `seen` marks the vertices that have been
entered; the vertices that have been left stand in `left`, the last one first.
-/
def explore (g : Graph) (seen : Array Bool) (stack : List Open) (left : List Nat) : List Nat :=
  match stack with
  | [] => left
  | (v, []) :: below => explore g seen below (v :: left)
  | (v, next :: rest) :: below =>
    if h : ∃ bound : next < seen.size, seen[next] = false then
      explore g (seen.set next true h.1) ((next, g.targets next) :: (v, rest) :: below) left
    else explore g seen ((v, rest) :: below) left
termination_by (seen.count false, pending stack)
decreasing_by
  · apply Prod.Lex.right
    simp only [pending]
    omega
  · apply Prod.Lex.left
    obtain ⟨bound, unseen⟩ := h
    have positive : 0 < seen.count false := by
      rw [Array.count_pos_iff, ← unseen]
      exact Array.getElem_mem bound
    rw [Array.count_set bound, unseen]
    simpa using Nat.sub_lt positive Nat.one_pos
  · apply Prod.Lex.right
    simp only [pending, List.length_cons]
    omega

/-- The reachable vertices in reverse order of leaving them. -/
def reversePostorder (g : Graph) : List Nat :=
  let seen := (Array.replicate (g.size + 1) false).setIfInBounds g.top true
  g.explore seen [(g.top, g.targets g.top)] []

def postorder (g : Graph) : List Nat :=
  g.reversePostorder.reverse

end HeapLens.Graph
