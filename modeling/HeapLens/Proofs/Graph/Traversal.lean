import HeapLens.Proofs.Graph.DepthFirst
import HeapLens.Proofs.Loop

set_option autoImplicit false

namespace HeapLens.Graph

variable {g : Graph} {v : Nat}

/-- What a depth-first walk has at hand: marks, open vertices, and vertices that have been left. -/
structure Tour where
  seen : Array Bool
  stack : List Open
  left : List Nat

/-- A move of a tour; a target without a mark allows none. -/
inductive Move (g : Graph) : Tour → Tour → Prop where
  | leave {seen : Array Bool} {below : List Open} {left : List Nat} (v : Nat) :
    Move g ⟨seen, (v, []) :: below, left⟩ ⟨seen, below, v :: left⟩
  | enter {seen : Array Bool} {below : List Open} {left rest : List Nat} {v next : Nat}
    (bound : next < seen.size) (unseen : seen[next] = false) :
    Move g ⟨seen, (v, next :: rest) :: below, left⟩
      ⟨seen.set next true bound, (next, g.targets next) :: (v, rest) :: below, left⟩
  | skip {seen : Array Bool} {below : List Open} {left rest : List Nat} {v next : Nat}
    (bound : next < seen.size) (old : seen[next] = true) :
    Move g ⟨seen, (v, next :: rest) :: below, left⟩ ⟨seen, (v, rest) :: below, left⟩

def departure (g : Graph) : Tour where
  seen := (Array.replicate (g.size + 1) false).setIfInBounds g.top true
  stack := [(g.top, g.targets g.top)]
  left := []

theorem Move.unique {s t t' : Tour} (move : g.Move s t) (move' : g.Move s t') : t' = t := by
  cases move with
  | leave v =>
    cases move' with
    | leave => rfl
  | enter bound unseen =>
    cases move' with
    | enter => rfl
    | skip _ old =>
      rw [unseen] at old
      cases old
  | skip bound old =>
    cases move' with
    | enter _ unseen =>
      rw [old] at unseen
      cases unseen
    | skip => rfl

namespace Exploration

theorem next_marked (range : g.InRange) {seen : Array Bool} {below : List Open}
    {left rest : List Nat} {next : Nat}
    (inv : g.Exploration seen ((v, next :: rest) :: below) left) : next < seen.size := by
  have edge : next ∈ g.targets v :=
    inv.rest_subset (v, next :: rest) List.mem_cons_self List.mem_cons_self
  have low := range v next edge
  rw [inv.size_eq]
  omega

/-- The moves of a tour are the steps of `explore`. -/
theorem finishes (range : g.InRange) {seen : Array Bool} {stack : List Open} {left : List Nat}
    (inv : g.Exploration seen stack left) :
    ∃ seen', Finishes g.Move ⟨seen, stack, left⟩ ⟨seen', [], g.explore seen stack left⟩ := by
  fun_induction explore g seen stack left with
  | case1 seen left =>
    refine ⟨seen, .stop fun t move => ?_⟩
    cases move
  | case2 seen left v below ih =>
    obtain ⟨seen', rest⟩ := ih inv.leave
    have move : g.Move ⟨seen, (v, []) :: below, left⟩ ⟨seen, below, v :: left⟩ := .leave v
    exact ⟨seen', .turn move (fun _ => move.unique) rest⟩
  | case3 seen left v next rest below h ih =>
    obtain ⟨seen', later⟩ := ih (inv.enter h.1 h.2)
    have move : g.Move ⟨seen, (v, next :: rest) :: below, left⟩ _ := .enter h.1 h.2
    exact ⟨seen', .turn move (fun _ => move.unique) later⟩
  | case4 seen left v next rest below h ih =>
    obtain ⟨seen', later⟩ := ih (inv.skip range h)
    have bound := inv.next_marked range
    have old : seen[next] = true := by simpa [bound] using h
    have move : g.Move ⟨seen, (v, next :: rest) :: below, left⟩ _ := .skip bound old
    exact ⟨seen', .turn move (fun _ => move.unique) later⟩

end Exploration

theorem finishes_departure (range : g.InRange) :
    ∃ seen, Finishes g.Move g.departure ⟨seen, [], g.reversePostorder⟩ :=
  (Exploration.start g).finishes range

def RootsReach (g : Graph) (v : Nat) : Prop :=
  ∃ r ∈ g.roots, ∃ vs, g.Path r vs v

theorem reachable_iff_rootsReach : g.Reachable v ↔ v = g.top ∨ g.RootsReach v := by
  have targets_top : g.targets g.top = g.roots := if_pos rfl
  constructor
  · rintro ⟨vs, p⟩
    cases p with
    | here => exact .inl rfl
    | step edge rest => exact .inr ⟨_, targets_top ▸ edge, _, rest⟩
  · rintro (rfl | ⟨r, root, vs, p⟩)
    · exact g.reachable_top
    · exact ⟨g.top :: vs, .step (targets_top.symm ▸ root) p⟩

/--
The order of leaving lists, each once, the vertex above the roots as the last one, and whatever the
roots lead to. Behind each other vertex stands one that refers to it, and behind each vertex stand
all its dominators.
-/
theorem postorder_lists_reachable (range : g.InRange) :
    (∃ seen, Finishes g.Move g.departure ⟨seen, [], g.postorder.reverse⟩) ∧
      g.postorder.Nodup ∧
      (∀ v, v ∈ g.postorder ↔ v = g.top ∨ g.RootsReach v) ∧
      g.postorder.getLast? = some g.top ∧
      ∀ before v after, g.postorder = before ++ v :: after →
        (v ≠ g.top → ∃ u ∈ after, v ∈ g.targets u) ∧
          ∀ d, g.Dominates d v → d ≠ v → d ∈ after := by
  refine ⟨?_, List.nodup_reverse.mpr (g.reversePostorder_nodup range), fun v => ?_, ?_, ?_⟩
  · rw [postorder, List.reverse_reverse]
    exact finishes_departure range
  · rw [postorder, List.mem_reverse, g.mem_reversePostorder range, reachable_iff_rootsReach]
  · rw [postorder, List.getLast?_reverse, g.reversePostorder_eq_cons range, List.head?_cons]
  · intro before v after order
    have reversed := reversePostorder_eq order
    refine ⟨fun notTop => ?_, fun d dom ne => ?_⟩
    · obtain ⟨u, mem, edge⟩ := exists_source_before range reversed notTop
      exact ⟨u, List.mem_reverse.mp mem, edge⟩
    · exact List.mem_reverse.mp (mem_before_of_dominates range reversed dom ne)

def loops : Graph := ⟨#[[1, 2, 2], [2, 0], [1, 3], [3], [0]], [0, 0]⟩

theorem inRange_loops : loops.InRange := inRange_of_all (by decide) (by decide)

theorem postorder_loops : loops.postorder = [3, 2, 1, 0, 5] := by cbv

theorem postorder_lists_loops :
    (∃ seen, Finishes loops.Move loops.departure ⟨seen, [], [5, 0, 1, 2, 3]⟩) ∧
      ¬loops.RootsReach 4 ∧ ∀ d, loops.Dominates d 3 → d ≠ 3 → d ∈ [2, 1, 0, 5] := by
  obtain ⟨run, _, listed, _, order⟩ := postorder_lists_reachable inRange_loops
  rw [postorder_loops] at run listed
  refine ⟨run, fun reach => ?_, (order [] 3 [2, 1, 0, 5] postorder_loops).2⟩
  have mem := (listed 4).mpr (.inr reach)
  revert mem
  decide

end HeapLens.Graph
