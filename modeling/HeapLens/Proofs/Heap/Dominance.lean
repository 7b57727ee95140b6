import HeapLens.Proofs.Graph.Settling
import HeapLens.Proofs.Heap.Sound

/-!
# Dominance between the nodes of a heap

A route leads from a root along references. The routes of a heap and the walks of its graph pass
through the same nodes, although the graph leaves out the reference of a node to itself as its
class: a route that uses it makes a detour. Hence the dominators that a heap tells are the
immediate dominators in terms of routes.
-/

set_option autoImplicit false

namespace HeapLens

/-- Whether `us`, the last node first, are the nodes of a route from a root to `v`. -/
inductive Heap.Route (h : Heap) : List NodeId → NodeId → Prop where
  | root {v : NodeId} : v ∈ h.roots → Route h [v] v
  | step {us : List NodeId} {u w : NodeId} : Route h us u → h.Refers u w → Route h (w :: us) w

namespace Heap

def Live (h : Heap) (v : NodeId) : Prop := ∃ us, h.Route us v

/-- Whether a node lies on every route to another one. -/
def Dominates (h : Heap) (d v : NodeId) : Prop := ∀ us, h.Route us v → d ∈ us

/-- Whether `d` is the nearest of those nodes that lie on every route to `v`, itself apart. -/
def NearestDominator (h : Heap) (d v : NodeId) : Prop :=
  d ≠ v ∧ h.Dominates d v ∧ ∀ e, e ≠ v → h.Dominates e v → h.Dominates e d

def graph (h : Heap) : Graph := graphOf h.records h.roots

variable {h : Heap} {v w d : NodeId} {us : List NodeId}

theorem Route.mem (route : h.Route us v) : v ∈ us := by
  cases route <;> exact List.mem_cons_self

theorem size_graph (h : Heap) : h.graph.size = h.size := by
  simp [graph, graphOf, Graph.size, size]

theorem has_iff : v.index < h.graph.size ↔ h.Has v := by
  rw [size_graph]
  rfl

theorem targets_top (h : Heap) : h.graph.targets h.graph.top = h.roots.map NodeId.index := by
  rw [Graph.targets, if_pos rfl]
  rfl

theorem targets_of_holds {r : Record} (held : h.Holds v r) :
    h.graph.targets v.index = (r.references v).map NodeId.index := by
  have bound := held.has
  have ne : v.index ≠ h.graph.top := by
    rw [Graph.top, size_graph]
    exact Nat.ne_of_lt bound
  rw [Graph.targets, if_neg ne, graph, graphOf, Array.getElem?_mapIdx, held]
  simp

theorem refers_of_mem_targets {t : Nat} (has : h.Has v) (mem : t ∈ h.graph.targets v.index) :
    ∃ w, w.index = t ∧ h.Refers v w := by
  obtain ⟨r, held⟩ := exists_holds has
  rw [targets_of_holds held] at mem
  obtain ⟨w, reference, rfl⟩ := List.mem_map.mp mem
  refine ⟨w, rfl, r, held, ?_⟩
  rcases mem_references.mp reference with ⟨eq, _⟩ | rest
  · exact .inl eq.symm
  · exact .inr rest

theorem mem_targets_of_refers (refers : h.Refers v w) :
    w.index ∈ h.graph.targets v.index ∨ w = v := by
  obtain ⟨r, held, named⟩ := refers
  by_cases eq : w = v
  · exact .inr eq
  · rw [targets_of_holds held]
    refine .inl (List.mem_map.mpr ⟨w, mem_references.mpr ?_, rfl⟩)
    rcases named with same | rest
    · exact .inl ⟨same.symm, eq⟩
    · exact .inr rest

theorem Has.ne_top (has : h.Has v) : v.index ≠ h.graph.top := by
  rw [Graph.top, size_graph]
  exact Nat.ne_of_lt has

/-- The nodes of a route are those of a walk, if its detours are left out. -/
theorem Route.walk (route : h.Route us v) :
    ∃ vs, h.graph.Path h.graph.top vs v.index ∧
      ∀ x ∈ vs, x = h.graph.top ∨ ∃ u ∈ us, u.index = x := by
  induction route with
  | @root v mem =>
    have edge : v.index ∈ h.graph.targets h.graph.top := by
      rw [targets_top]
      exact List.mem_map_of_mem mem
    exact ⟨[h.graph.top], .step edge (.here _), by simp⟩
  | @step us u w route refers ih =>
    obtain ⟨vs, path, inside⟩ := ih
    rcases mem_targets_of_refers refers with edge | rfl
    · refine ⟨vs ++ [u.index], path.snoc edge, fun x hx => ?_⟩
      rcases List.mem_append.mp hx with old | last
      · exact (inside x old).imp id fun ⟨y, mem, eq⟩ => ⟨y, List.mem_cons_of_mem w mem, eq⟩
      · exact .inr ⟨u, List.mem_cons_of_mem w route.mem, (List.mem_singleton.mp last).symm⟩
    · exact ⟨vs, path, fun x hx => (inside x hx).imp id
        fun ⟨y, mem, eq⟩ => ⟨y, List.mem_cons_of_mem w mem, eq⟩⟩

namespace Sound

theorem route_has (sound : h.Sound) (route : h.Route us v) : ∀ u ∈ us, h.Has u := by
  induction route with
  | root mem => simpa using sound.roots_exist _ mem
  | step _ refers ih =>
    intro x hx
    rcases List.mem_cons.mp hx with rfl | hx
    · exact sound.refers_exist _ _ refers
    · exact ih x hx

theorem inRange (sound : h.Sound) : h.graph.InRange := by
  intro v t mem
  by_cases atTop : v = h.graph.top
  · rw [atTop, targets_top] at mem
    obtain ⟨r, root, rfl⟩ := List.mem_map.mp mem
    rw [size_graph]
    exact sound.roots_exist r root
  · by_cases bound : v < h.size
    · obtain ⟨id, rfl⟩ := sound.exists_index bound
      obtain ⟨w, rfl, refers⟩ := refers_of_mem_targets bound mem
      rw [size_graph]
      exact sound.refers_exist id w refers
    · rw [Graph.targets, if_neg atTop, Array.getElem?_eq_none] at mem
      · simp at mem
      · have := size_graph h
        rw [Graph.size] at this
        omega

theorem route_of_walk (sound : h.Sound) {vs : List Nat} {t : Nat}
    (path : h.graph.Path h.graph.top vs t) (ne : h.graph.top ≠ t) :
    ∃ us v, v.index = t ∧ h.Route us v ∧ ∀ u ∈ us, u.index ∈ vs ∨ u = v := by
  induction eq : vs.length using Nat.strongRecOn generalizing vs t with
  | _ n ih =>
    subst eq
    rcases path.last_step with ⟨_, same⟩ | ⟨before, x, rfl, path, edge⟩
    · exact absurd same ne
    · by_cases atTop : h.graph.top = x
      · rw [← atTop, targets_top] at edge
        obtain ⟨v, root, rfl⟩ := List.mem_map.mp edge
        exact ⟨[v], v, rfl, .root root, by simp⟩
      · obtain ⟨us, u, rfl, route, inside⟩ := ih before.length (by simp) path atTop rfl
        have has := sound.route_has route u route.mem
        obtain ⟨w, rfl, refers⟩ := refers_of_mem_targets has edge
        refine ⟨w :: us, w, rfl, .step route refers, fun y hy => ?_⟩
        rcases List.mem_cons.mp hy with rfl | old
        · exact .inr rfl
        · rcases inside y old with mem | rfl
          · exact .inl (List.mem_append_left _ mem)
          · exact .inl (by simp)

theorem live_iff (sound : h.Sound) (has : h.Has v) : h.Live v ↔ h.graph.Reachable v.index := by
  constructor
  · rintro ⟨us, route⟩
    obtain ⟨vs, path, _⟩ := route.walk
    exact ⟨vs, path⟩
  · rintro ⟨vs, path⟩
    obtain ⟨us, w, eq, route, _⟩ := sound.route_of_walk path has.ne_top.symm
    obtain rfl := NodeId.ext_index eq
    exact ⟨us, route⟩

theorem dominates_iff (sound : h.Sound) (has : h.Has v) (has_d : h.Has d) :
    h.Dominates d v ↔ h.graph.Dominates d.index v.index := by
  constructor
  · intro dom vs path
    obtain ⟨us, w, eq, route, inside⟩ := sound.route_of_walk path has.ne_top.symm
    obtain rfl := NodeId.ext_index eq
    rcases inside d (dom us route) with mem | rfl
    · exact .inl mem
    · exact .inr rfl
  · intro dom us route
    obtain ⟨vs, path, inside⟩ := route.walk
    rcases dom vs path with mem | eq
    · rcases inside d.index mem with top | ⟨u, mem, eq⟩
      · exact absurd top has_d.ne_top
      · exact NodeId.ext_index eq ▸ mem
    · exact NodeId.ext_index eq ▸ route.mem

theorem has_of_dominates (sound : h.Sound) (live : h.Live v) (dom : h.Dominates d v) :
    h.Has d := by
  obtain ⟨us, route⟩ := live
  exact sound.route_has route d (dom us route)

theorem dominator_eq (sound : h.Sound) (has : h.Has v) :
    ∃ o, h.graph.immediateDominators[v.index]? = some o ∧
      h.store.dominator v = .ok (o.map .ofIndex) := by
  have bound : v.index < h.graph.size := by
    rw [size_graph]
    exact has
  have found := Graph.immediateDominators_getElem? sound.inRange bound
  refine ⟨_, found, ?_⟩
  have table : lookUp h.dominators v = .ok ((Graph.entry h.graph.dominatorTable v.index).filter
      (· ≠ h.graph.top)) := by
    apply lookUp_of_getElem?
    rw [sound.dominators_eq]
    exact found
  change Except.map (·.map NodeId.ofIndex) (lookUp h.dominators v) = _
  rw [table]
  rfl

theorem immediatelyDominates_iff (sound : h.Sound) (has : h.Has v) (live : h.Live v) :
    h.graph.ImmediatelyDominates d.index v.index ↔ h.NearestDominator d v := by
  constructor
  · rintro ⟨low, ne, dom, nearest⟩
    have has_d := has_iff.mp low
    refine ⟨fun eq => ne (congrArg NodeId.index eq), (sound.dominates_iff has has_d).mpr dom, ?_⟩
    intro e ne_e dom_e
    have has_e := sound.has_of_dominates live dom_e
    rw [sound.dominates_iff has_d has_e]
    exact nearest e.index (has_iff.mpr has_e) (fun eq => ne_e (NodeId.ext_index eq))
      ((sound.dominates_iff has has_e).mp dom_e)
  · rintro ⟨ne, dom, nearest⟩
    have has_d := sound.has_of_dominates live dom
    refine ⟨has_iff.mpr has_d, fun eq => ne (NodeId.ext_index eq),
      (sound.dominates_iff has has_d).mp dom, ?_⟩
    intro e low ne_e dom_e
    rw [size_graph] at low
    obtain ⟨id, rfl⟩ := sound.exists_index low
    rw [← sound.dominates_iff has_d low]
    exact nearest id (fun eq => ne_e (congrArg NodeId.index eq))
      ((sound.dominates_iff has low).mpr dom_e)

theorem exists_dominates_iff (sound : h.Sound) (has : h.Has v) (live : h.Live v) :
    (∃ i, i < h.graph.size ∧ i ≠ v.index ∧ h.graph.Dominates i v.index) ↔
      ∃ d, d ≠ v ∧ h.Dominates d v := by
  constructor
  · rintro ⟨i, low, ne, dom⟩
    rw [size_graph] at low
    obtain ⟨id, rfl⟩ := sound.exists_index low
    exact ⟨id, fun eq => ne (congrArg NodeId.index eq), (sound.dominates_iff has low).mpr dom⟩
  · rintro ⟨d, ne, dom⟩
    have has_d := sound.has_of_dominates live dom
    exact ⟨d.index, has_iff.mpr has_d, fun eq => ne (NodeId.ext_index eq),
      (sound.dominates_iff has has_d).mp dom⟩

end Sound

/--
A heap tells for a live node the nearest of the nodes that lie on every route to it, and nothing for
a node that is not live or to which no single other node cuts off all routes, such as a root.
-/
theorem dominator_iff_nearest {s : Snapshot} (accepted : ofSnapshot s = .ok h) (has : h.Has v) :
    (∀ d, h.store.dominator v = .ok (some d) ↔ h.Live v ∧ h.NearestDominator d v) ∧
      (h.store.dominator v = .ok none ↔ ¬h.Live v ∨ ¬∃ d, d ≠ v ∧ h.Dominates d v) ∧
      (v ∈ h.roots → h.store.dominator v = .ok none) := by
  have sound := sound_of_ofSnapshot accepted
  have bound := has_iff.mpr has
  obtain ⟨o, found, told⟩ := sound.dominator_eq has
  have none_iff : h.store.dominator v = .ok none ↔
      ¬h.Live v ∨ ¬∃ d, d ≠ v ∧ h.Dominates d v := by
    have graph_iff := Graph.immediateDominators_eq_none_iff sound.inRange bound
    rw [found, Option.some_inj, ← sound.live_iff has] at graph_iff
    rw [told, Except.ok.injEq, Option.map_eq_none_iff, graph_iff]
    by_cases live : h.Live v
    · rw [sound.exists_dominates_iff has live]
    · simp [live]
  refine ⟨fun d => ?_, none_iff, fun root => none_iff.mpr (.inr ?_)⟩
  · have graph_iff (i : Nat) : o = some i ↔
        h.graph.Reachable v.index ∧ h.graph.ImmediatelyDominates i v.index := by
      rw [← Graph.immediateDominators_eq_some_iff sound.inRange bound, found, Option.some_inj]
    rw [told, Except.ok.injEq, Option.map_eq_some_iff]
    constructor
    · rintro ⟨i, eq, rfl⟩
      obtain ⟨reach, immediate⟩ := (graph_iff i).mp eq
      have low := immediate.1
      rw [size_graph] at low
      obtain ⟨id, rfl⟩ := sound.exists_index low
      have live := (sound.live_iff has).mpr reach
      rw [NodeId.ofIndex_index]
      exact ⟨live, (sound.immediatelyDominates_iff has live).mp immediate⟩
    · rintro ⟨live, nearest⟩
      exact ⟨d.index, (graph_iff d.index).mpr ⟨(sound.live_iff has).mp live,
        (sound.immediatelyDominates_iff has live).mpr nearest⟩, NodeId.ofIndex_index d⟩
  · rintro ⟨d, ne, dom⟩
    exact ne (List.mem_singleton.mp (dom [v] (.root root)))

def knotPart (targets : List NodeId) : Node :=
  ⟨.plain ⟨0⟩ (targets.map fun t => ⟨"to", .ref t, none⟩), none, none⟩

def knot : Snapshot where
  nodes :=
    [⟨.classNode "Part" none none [], none, none⟩, knotPart [⟨2⟩, ⟨3⟩], knotPart [⟨3⟩],
      knotPart [⟨2⟩, ⟨4⟩], knotPart [⟨4⟩], knotPart [⟨4⟩]]
  roots := [⟨1⟩, ⟨1⟩]

def knotHeap : Heap := assemble (recordsOfSnapshot knot) knot.roots

theorem records_knot : recordsOfSnapshot knot =
    (knot.nodes.zipIdx.map fun (n, i) => complete none i n).toArray := by
  have unnamed : metaclass? knot.nodes = none := by decide
  rw [recordsOfSnapshot, recordsOf, unnamed]

theorem ofSnapshot_knot : ofSnapshot knot = .ok knotHeap :=
  ofSnapshot_of_defect? (by decide +kernel)

theorem has_knot {i : UInt64} (few : i.toNat < 6) : knotHeap.Has ⟨i⟩ :=
  (has_iff_of_ofSnapshot ofSnapshot_knot).mpr few

theorem graph_knot : knotHeap.graph =
    ⟨#[[], [0, 2, 3], [0, 3], [0, 2, 4], [0, 4], [0, 4]], [1, 1]⟩ := by
  rw [graph, knotHeap, records_knot]
  rfl

theorem dominators_knot :
    knotHeap.dominators = #[some 1, none, some 1, some 1, some 3, none] := by
  have order : knotHeap.graph.reversePostorder = [6, 1, 2, 3, 4, 0] := by
    rw [graph_knot]
    cbv
  change knotHeap.graph.immediateDominators = _
  rw [Graph.immediateDominators, Graph.dominatorTable, order, List.tail_cons, graph_knot]
  cbv

theorem dominator_knot : knotHeap.store.dominator ⟨4⟩ = .ok (some ⟨3⟩) := by
  change (lookUp knotHeap.dominators ⟨4⟩).map _ = _
  rw [dominators_knot]
  rfl

theorem nearestDominator_knot :
    knotHeap.Live ⟨4⟩ ∧ knotHeap.NearestDominator ⟨3⟩ ⟨4⟩ ∧
      knotHeap.store.dominator ⟨1⟩ = .ok none := by
  have at_four := dominator_iff_nearest ofSnapshot_knot (v := ⟨4⟩) (has_knot (by decide))
  have at_one := dominator_iff_nearest ofSnapshot_knot (v := ⟨1⟩) (has_knot (by decide))
  obtain ⟨live, nearest⟩ := (at_four.1 ⟨3⟩).mp dominator_knot
  exact ⟨live, nearest, at_one.2.2 (by decide)⟩

end Heap

end HeapLens
