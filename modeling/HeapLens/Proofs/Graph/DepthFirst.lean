import HeapLens.Graph.Postorder
import HeapLens.Proofs.Graph.Walks

set_option autoImplicit false

namespace HeapLens.Graph

variable {g : Graph}

def Linked (g : Graph) : List Open → Prop
  | [] => True
  | [(v, _)] => v = g.top
  | (v, _) :: (u, ts) :: below => v ∈ g.targets u ∧ Linked g ((u, ts) :: below)

theorem Linked.congr {below : List Open} {v : Nat} {ts ts' : List Nat}
    (h : Linked g ((v, ts) :: below)) : Linked g ((v, ts') :: below) := by
  cases below with
  | nil => exact h
  | cons o below => exact h

def Entered (stack : List Open) (left : List Nat) (v : Nat) : Prop :=
  v ∈ stack.map Prod.fst ∨ v ∈ left

/-- What holds between two moves of a depth-first walk. -/
structure Exploration (g : Graph) (seen : Array Bool) (stack : List Open) (left : List Nat) :
    Prop where
  size_eq : seen.size = g.size + 1
  marked : ∀ v, seen[v]? = some true ↔ Entered stack left v
  nodup : (stack.map Prod.fst ++ left).Nodup
  linked : Linked g stack
  reached : ∀ v, Entered stack left v → g.Reachable v
  rest_subset : ∀ o ∈ stack, o.2 ⊆ g.targets o.1
  looked : ∀ o ∈ stack, ∀ w ∈ g.targets o.1, w ∈ o.2 ∨ Entered stack left w
  closed : ∀ v ∈ left, ∀ w ∈ g.targets v, Entered stack left w
  found : ∀ before v after, left = before ++ v :: after →
    v = g.top ∨ ∃ u, v ∈ g.targets u ∧ (u ∈ before ∨ u ∈ stack.map Prod.fst)
  last : stack = [] → left.head? = some g.top

namespace Exploration

variable {seen : Array Bool} {below : List Open} {left : List Nat} {v next : Nat} {rest : List Nat}

theorem start (g : Graph) :
    g.Exploration ((Array.replicate (g.size + 1) false).setIfInBounds g.top true)
      [(g.top, g.targets g.top)] [] where
  size_eq := by simp
  marked v := by
    have : g.top = g.size := rfl
    simp only [Array.getElem?_setIfInBounds, Array.getElem?_replicate, Entered, List.map_cons,
      List.map_nil, List.mem_singleton, List.not_mem_nil, or_false]
    grind
  nodup := by simp
  linked := rfl
  reached v h := by
    have : v = g.top := by simpa [Entered] using h
    exact this ▸ g.reachable_top
  rest_subset := by simp
  looked := by
    intro o ho w hw
    have : o = (g.top, g.targets g.top) := by simpa using ho
    subst this
    exact .inl hw
  closed := by simp
  found := by simp
  last := by simp

theorem entered_leave (w : Nat) :
    Entered below (v :: left) w ↔ Entered ((v, []) :: below) left w := by
  simp only [Entered, List.map_cons, List.mem_cons]
  tauto

theorem leave (inv : g.Exploration seen ((v, []) :: below) left) :
    g.Exploration seen below (v :: left) where
  size_eq := inv.size_eq
  marked w := (inv.marked w).trans (entered_leave w).symm
  nodup := by
    have := inv.nodup
    simp only [List.map_cons, List.cons_append] at this
    exact List.nodup_middle.mpr this
  linked := by
    have := inv.linked
    cases below with
    | nil => trivial
    | cons o below => exact this.2
  reached w h := inv.reached w ((entered_leave w).mp h)
  rest_subset o ho := inv.rest_subset o (List.mem_cons_of_mem _ ho)
  looked o ho w hw :=
    (inv.looked o (List.mem_cons_of_mem _ ho) w hw).imp id (entered_leave w).mpr
  closed u hu w hw := by
    rw [entered_leave]
    rcases List.mem_cons.mp hu with rfl | hu
    · exact (inv.looked (u, []) List.mem_cons_self w hw).resolve_left List.not_mem_nil
    · exact inv.closed u hu w hw
  found before w after eq := by
    cases before with
    | nil =>
      obtain ⟨rfl, rfl⟩ : v = w ∧ left = after := by simpa using eq
      have link := inv.linked
      cases below with
      | nil => exact .inl link
      | cons o below => exact .inr ⟨o.1, link.1, .inr (by simp)⟩
    | cons x before =>
      obtain ⟨rfl, rfl⟩ : v = x ∧ left = before ++ w :: after := by simpa using eq
      rcases inv.found before w after rfl with top | ⟨u, edge, mem | mem⟩
      · exact .inl top
      · exact .inr ⟨u, edge, .inl (List.mem_cons_of_mem _ mem)⟩
      · rcases List.mem_cons.mp mem with rfl | mem
        · exact .inr ⟨u, edge, .inl List.mem_cons_self⟩
        · exact .inr ⟨u, edge, .inr mem⟩
  last h := by
    subst h
    have : v = g.top := inv.linked
    simp [this]

theorem rest_subset_rest (inv : g.Exploration seen ((v, next :: rest) :: below) left) :
    ∀ o ∈ (v, rest) :: below, o.2 ⊆ g.targets o.1 := by
  intro o ho
  rcases List.mem_cons.mp ho with rfl | ho
  · intro w hw
    exact inv.rest_subset (v, next :: rest) List.mem_cons_self (List.mem_cons_of_mem _ hw)
  · exact inv.rest_subset o (List.mem_cons_of_mem _ ho)

theorem looked_rest (inv : g.Exploration seen ((v, next :: rest) :: below) left) :
    ∀ o ∈ (v, rest) :: below, ∀ w ∈ g.targets o.1,
      w = next ∨ w ∈ o.2 ∨ Entered ((v, next :: rest) :: below) left w := by
  intro o ho w hw
  rcases List.mem_cons.mp ho with rfl | ho
  · rcases inv.looked (v, next :: rest) List.mem_cons_self w hw with mem | entered
    · exact (List.mem_cons.mp mem).imp id .inl
    · exact .inr (.inr entered)
  · exact .inr (inv.looked o (List.mem_cons_of_mem _ ho) w hw)

/-- A vertex that has been entered before needs no further look. -/
theorem skip (range : g.InRange) (inv : g.Exploration seen ((v, next :: rest) :: below) left)
    (old : ¬∃ bound : next < seen.size, seen[next] = false) :
    g.Exploration seen ((v, rest) :: below) left where
  size_eq := inv.size_eq
  marked := inv.marked
  nodup := inv.nodup
  linked := inv.linked.congr
  reached := inv.reached
  rest_subset := inv.rest_subset_rest
  looked o ho w hw := by
    rcases inv.looked_rest o ho w hw with rfl | looked
    · have edge : w ∈ g.targets v :=
        inv.rest_subset (v, w :: rest) List.mem_cons_self List.mem_cons_self
      have bound : w < seen.size := by
        have := range v w edge
        rw [inv.size_eq]
        omega
      have marked : seen[w]? = some true := by
        rw [Array.getElem?_eq_getElem bound]
        simpa [bound] using old
      exact .inr ((inv.marked w).mp marked)
    · exact looked
  closed := inv.closed
  found := inv.found
  last := by simp

theorem entered_enter (w : Nat) (ts : List Nat) :
    Entered ((next, ts) :: (v, rest) :: below) left w ↔
      w = next ∨ Entered ((v, next :: rest) :: below) left w := by
  simp only [Entered, List.map_cons, List.mem_cons]
  tauto

theorem enter (inv : g.Exploration seen ((v, next :: rest) :: below) left)
    (bound : next < seen.size) (unseen : seen[next] = false) :
    g.Exploration (seen.set next true bound)
      ((next, g.targets next) :: (v, rest) :: below) left := by
  have edge : next ∈ g.targets v :=
    inv.rest_subset (v, next :: rest) List.mem_cons_self List.mem_cons_self
  have fresh : ¬Entered ((v, next :: rest) :: below) left next := by
    rw [← inv.marked, Array.getElem?_eq_getElem bound, unseen]
    simp
  refine
    { size_eq := by rw [Array.size_set, inv.size_eq]
      marked := ?_
      nodup := ?_
      linked := ?_
      reached := ?_
      rest_subset := ?_
      looked := ?_
      closed := fun u hu w hw => (entered_enter w _).mpr (.inr (inv.closed u hu w hw))
      found := ?_
      last := by simp }
  · intro w
    rw [entered_enter, ← inv.marked, Array.getElem?_set]
    by_cases eq : next = w
    · simp [eq]
    · simp [eq, Ne.symm eq]
  · have := inv.nodup
    simp only [Entered, List.map_cons, List.mem_cons, not_or] at fresh
    simp only [List.map_cons, List.cons_append] at this ⊢
    refine List.nodup_cons.mpr ⟨?_, this⟩
    simp only [List.mem_cons, List.mem_append, not_or]
    exact ⟨fresh.1.1, fresh.1.2, fresh.2⟩
  · exact ⟨edge, inv.linked.congr⟩
  · intro w h
    rcases (entered_enter w _).mp h with rfl | h
    · exact (inv.reached v (by simp [Entered])).target edge
    · exact inv.reached w h
  · intro o ho
    rcases List.mem_cons.mp ho with rfl | ho
    · exact List.Subset.refl _
    · exact inv.rest_subset_rest o ho
  · intro o ho w hw
    rw [entered_enter]
    rcases List.mem_cons.mp ho with rfl | ho
    · exact .inl hw
    · rcases inv.looked_rest o ho w hw with rfl | mem | entered
      · exact .inr (.inl rfl)
      · exact .inl mem
      · exact .inr (.inr entered)
  · intro before w after eq
    rcases inv.found before w after eq with top | ⟨u, link, mem | mem⟩
    · exact .inl top
    · exact .inr ⟨u, link, .inl mem⟩
    · exact .inr ⟨u, link, .inr (List.mem_cons_of_mem _ mem)⟩

theorem finish (range : g.InRange) {stack : List Open} (inv : g.Exploration seen stack left) :
    ∃ seen', g.Exploration seen' [] (g.explore seen stack left) := by
  fun_induction explore g seen stack left with
  | case1 seen left => exact ⟨seen, inv⟩
  | case2 seen left v below ih => exact ih inv.leave
  | case3 seen left v next rest below h ih => exact ih (inv.enter h.1 h.2)
  | case4 seen left v next rest below h ih => exact ih (inv.skip range h)

end Exploration

theorem reversePostorder_explored (range : g.InRange) :
    ∃ seen, g.Exploration seen [] g.reversePostorder :=
  (Exploration.start g).finish range

theorem reversePostorder_nodup (range : g.InRange) : g.reversePostorder.Nodup := by
  obtain ⟨seen, inv⟩ := g.reversePostorder_explored range
  simpa using inv.nodup

theorem reversePostorder_eq_cons (range : g.InRange) :
    g.reversePostorder = g.top :: g.reversePostorder.tail := by
  obtain ⟨seen, inv⟩ := g.reversePostorder_explored range
  exact List.eq_cons_of_mem_head? (inv.last rfl)

theorem mem_reversePostorder (range : g.InRange) {v : Nat} :
    v ∈ g.reversePostorder ↔ g.Reachable v := by
  obtain ⟨seen, inv⟩ := g.reversePostorder_explored range
  constructor
  · intro mem
    exact inv.reached v (.inr mem)
  · rintro ⟨vs, p⟩
    have first : g.top ∈ g.reversePostorder := by
      rw [g.reversePostorder_eq_cons range]
      exact List.mem_cons_self
    generalize g.top = u at p first
    induction p with
    | here u => exact first
    | step edge _ ih => exact ih (by simpa [Entered] using inv.closed _ first _ edge)

theorem exists_source_before (range : g.InRange) {before after : List Nat} {v : Nat}
    (eq : g.reversePostorder = before ++ v :: after) (ne : v ≠ g.top) :
    ∃ u ∈ before, v ∈ g.targets u := by
  obtain ⟨seen, inv⟩ := g.reversePostorder_explored range
  rcases inv.found before v after eq with top | ⟨u, edge, mem | mem⟩
  · exact absurd top ne
  · exact ⟨u, mem, edge⟩
  · simp at mem

theorem mem_before_of_dominates (range : g.InRange) {before after : List Nat} {d v : Nat}
    (order : g.reversePostorder = before ++ v :: after) (dom : g.Dominates d v) (ne : d ≠ v) :
    d ∈ before := by
  induction eq : before.length using Nat.strongRecOn generalizing v before after with
  | _ n ih =>
    subst eq
    have notTop : v ≠ g.top := by
      rintro rfl
      exact ne (eq_top_of_dominates_top dom)
    obtain ⟨u, mem, edge⟩ := exists_source_before range order notTop
    by_cases same : d = u
    · exact same ▸ mem
    · obtain ⟨front, between, rfl⟩ := List.append_of_mem mem
      have order' : g.reversePostorder = front ++ u :: (between ++ v :: after) := by
        rw [order, List.append_assoc, List.cons_append]
      have ahead := ih front.length (by simp) order' (dom.source edge ne) same rfl
      exact List.mem_append_left _ ahead

theorem reversePostorder_eq {before after : List Nat} {v : Nat}
    (order : g.postorder = before ++ v :: after) :
    g.reversePostorder = after.reverse ++ v :: before.reverse := by
  simpa [postorder, List.append_assoc] using congrArg List.reverse order

end HeapLens.Graph
