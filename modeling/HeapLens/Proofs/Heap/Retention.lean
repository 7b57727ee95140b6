import HeapLens.Proofs.Graph.Accumulation
import HeapLens.Proofs.Heap.Dominance

set_option autoImplicit false

namespace HeapLens.Heap

def LiveWithout (h : Heap) (v u : NodeId) : Prop := ∃ us, h.Route us u ∧ v ∉ us

/-- Whether a node is live, but would not be without `v`. -/
def KeptBy (h : Heap) (v u : NodeId) : Prop := h.Live u ∧ ¬h.LiveWithout v u

def bytes (h : Heap) (u : NodeId) : Nat := (h.store.size u).toOption.elim 0 UInt64.toNat

open Classical in
/-- The exact sum of the sizes of what is kept by a node. -/
noncomputable def bytesKept (h : Heap) (v : NodeId) : Nat :=
  ∑ u ∈ h.nodeIds.toFinset with h.KeptBy v u, h.bytes u

variable {h h' : Heap} {s s' : Snapshot} {u v w : NodeId}

theorem keptBy_iff : h.KeptBy v u ↔ h.Live u ∧ h.Dominates v u := by
  simp only [KeptBy, LiveWithout, Dominates, not_exists, not_and, not_not]

theorem keptBy_self (live : h.Live v) : h.KeptBy v v :=
  keptBy_iff.mpr ⟨live, fun _ route => route.mem⟩

theorem KeptBy.live (kept : h.KeptBy v u) (sound : h.Sound) : h.Live v := by
  obtain ⟨live, dom⟩ := keptBy_iff.mp kept
  have has_u : h.Has u := by
    obtain ⟨us, route⟩ := live
    exact sound.route_has route u route.mem
  have has_v := sound.has_of_dominates live dom
  exact (sound.live_iff has_v).mpr
    (((sound.dominates_iff has_u has_v).mp dom).reachable ((sound.live_iff has_u).mp live))

theorem size_of_holds {r : Record} (held : h.Holds v r) : h.store.size v = .ok r.size :=
  answer_of_holds held Record.size

def sizes (h : Heap) : Array UInt64 := h.records.map (·.size)

theorem size_sizes (h : Heap) : h.sizes.size = h.graph.size := by
  rw [size_graph, sizes, Array.size_map, size]

theorem getElem?_sizes {r : Record} (held : h.Holds v r) : h.sizes[v.index]? = some r.size := by
  rw [sizes, Array.getElem?_map, held, Option.map_some]

theorem bytes_eq (v : NodeId) : h.bytes v = (h.sizes[v.index]?.getD 0).toNat := by
  by_cases has : h.Has v
  · obtain ⟨r, held⟩ := exists_holds has
    rw [getElem?_sizes held, bytes, size_of_holds held]
    rfl
  · have out : h.records[v.index]? = none := Array.getElem?_eq_none (Nat.le_of_not_lt has)
    rw [sizes, Array.getElem?_map, out, bytes]
    change (Except.map Record.size (h.record v)).toOption.elim 0 UInt64.toNat = _
    rw [record, out]
    rfl

namespace Sound

theorem retainedSize_eq (sound : h.Sound) (has : h.Has v) :
    h.store.retainedSize v =
      .ok ((h.graph.retainedSizes h.graph.immediateDominators h.sizes)[v.index]?.getD 0) := by
  have inv := Graph.accumulating_retainedSizes sound.inRange (size_sizes h)
  have bound : v.index <
      (h.graph.retainedSizes h.graph.immediateDominators h.sizes).size := by
    rw [inv.size_eq, size_sizes, size_graph]
    exact has
  change lookUp h.retained v = _
  apply lookUp_of_getElem?
  rw [sound.retained_eq, sound.dominators_eq]
  change (h.graph.retainedSizes h.graph.immediateDominators h.sizes)[v.index]? = _
  rw [Array.getElem?_eq_getElem bound, Option.getD_some]

theorem sum_eq (sound : h.Sound) (p : NodeId → Prop) (q : Nat → Prop) [DecidablePred p]
    [DecidablePred q]
    (same : ∀ u, h.Has u → (p u ↔ q u.index)) :
    ∑ u ∈ h.nodeIds.toFinset with p u, h.bytes u =
      ∑ i ∈ Finset.range h.graph.size with q i, (h.sizes[i]?.getD 0).toNat := by
  have nodes : h.nodeIds.toFinset = (Finset.range h.size).image NodeId.ofIndex := by
    ext u
    simp [nodeIds]
  have injective : Set.InjOn NodeId.ofIndex (Finset.range h.size : Set Nat) := by
    intro i hi j hj eq
    have at_i := sound.index_ofIndex (i := i) (by simpa using hi)
    have at_j := sound.index_ofIndex (i := j) (by simpa using hj)
    rw [← at_i, eq, at_j]
  rw [Finset.sum_filter, Finset.sum_filter, nodes, Finset.sum_image injective, size_graph]
  refine Finset.sum_congr rfl fun i hi => ?_
  have low : i < h.size := Finset.mem_range.mp hi
  have index_eq := sound.index_ofIndex low
  have has : h.Has (.ofIndex i) := by rw [Has, index_eq]; exact low
  rw [bytes_eq, index_eq]
  simp only [same _ has, index_eq]

open Classical in
theorem retained_toNat (sound : h.Sound) (has : h.Has v) :
    ∃ b, h.store.retainedSize v = .ok b ∧ b.toNat = min sizeLimit
      (∑ u ∈ h.nodeIds.toFinset with u = v ∨ h.KeptBy v u, h.bytes u) := by
  refine ⟨_, sound.retainedSize_eq has, ?_⟩
  rw [Graph.retainedSizes_toNat sound.inRange (size_sizes h) (has_iff.mpr has)]
  congr 1
  refine (sound.sum_eq _ _ fun u has_u => ?_).symm
  rw [keptBy_iff, sound.live_iff has_u, sound.dominates_iff has_u has]
  exact or_congr ⟨congrArg NodeId.index, NodeId.ext_index⟩ Iff.rfl

end Sound

theorem graph_eq_of_shapes (accepted : ofSnapshot s = .ok h) (accepted' : ofSnapshot s' = .ok h')
    (shapes : s'.nodes.map (·.shape) = s.nodes.map (·.shape)) (roots : s'.roots = s.roots) :
    h'.graph = h.graph := by
  obtain ⟨_, rfl⟩ := valid_of_ofSnapshot accepted
  obtain ⟨_, rfl⟩ := valid_of_ofSnapshot accepted'
  have metaclasses : metaclass? s'.nodes = metaclass? s.nodes := by
    have general (nodes : List Node) : metaclass? nodes =
        ((nodes.map (·.shape)).findIdx? fun shape => shape.className? = some metaclassName).map
          .ofIndex := by
      rw [List.findIdx?_map]
      rfl
    rw [general, general, shapes]
  have successors : (graphOf (recordsOfSnapshot s') s'.roots).successors =
      (graphOf (recordsOfSnapshot s) s.roots).successors := by
    apply Array.ext_getElem?
    intro i
    have general (t : Snapshot) : (graphOf (recordsOfSnapshot t) t.roots).successors[i]? =
        (t.nodes.map (·.shape))[i]?.map fun shape =>
          ((complete (metaclass? t.nodes) i ⟨shape, none, none⟩).references (.ofIndex i)).map
            NodeId.index := by
      rw [graphOf, Array.getElem?_mapIdx, getElem?_recordsOfSnapshot, List.getElem?_map,
        Option.map_map, Option.map_map]
      rfl
    rw [general, general, shapes, metaclasses]
  simp only [graph, assemble, graphOf] at successors ⊢
  rw [successors, roots]

theorem bytes_eq_of_size_eq (same : h'.store.size u = h.store.size u) : h'.bytes u = h.bytes u := by
  rw [bytes, bytes, same]

/-- If only the size of a node that is not live differs, no other node retains another size. -/
theorem retainedSize_eq_of_sizes (accepted : ofSnapshot s = .ok h)
    (accepted' : ofSnapshot s' = .ok h') (shapes : s'.nodes.map (·.shape) = s.nodes.map (·.shape))
    (roots : s'.roots = s.roots) (dead : ¬h.Live v)
    (sizes : ∀ u, u ≠ v → h'.store.size u = h.store.size u) (has : h.Has w) (ne : w ≠ v) :
    h'.store.retainedSize w = h.store.retainedSize w := by
  classical
  have sound := sound_of_ofSnapshot accepted
  have sound' := sound_of_ofSnapshot accepted'
  have graph_eq := graph_eq_of_shapes accepted accepted' shapes roots
  have size_eq : h'.size = h.size := by rw [← size_graph, graph_eq, size_graph]
  have has' : h'.Has w := by
    rw [Has, size_eq]
    exact has
  have size_sizes' : h'.sizes.size = h.graph.size := by rw [size_sizes, graph_eq]
  rw [sound.retainedSize_eq has, sound'.retainedSize_eq has', graph_eq, Except.ok.injEq,
    ← UInt64.toNat_inj, Graph.retainedSizes_toNat sound.inRange size_sizes' (has_iff.mpr has),
    Graph.retainedSizes_toNat sound.inRange (size_sizes h) (has_iff.mpr has)]
  congr 1
  refine Finset.sum_congr rfl fun i hi => ?_
  obtain ⟨low, kept⟩ := Finset.mem_filter.mp hi
  rw [size_graph, Finset.mem_range] at low
  obtain ⟨u, rfl⟩ := sound.exists_index low
  have other : u ≠ v := by
    rintro rfl
    rcases kept with eq | ⟨reach, _⟩
    · exact ne (NodeId.ext_index eq).symm
    · exact dead ((sound.live_iff low).mpr reach)
  rw [← bytes_eq, ← bytes_eq, bytes_eq_of_size_eq (sizes u other)]

/--
A live node retains the exact sum of the sizes of what would not be live without it, capped once. A
node that is not live retains its own size, and whatever that is, no other node retains more or less.
-/
theorem retainedSize_eq_capped_bytesKept (accepted : ofSnapshot s = .ok h) (has : h.Has v) :
    (h.Live v → ∃ b, h.store.retainedSize v = .ok b ∧ b.toNat = min sizeLimit (h.bytesKept v)) ∧
      (¬h.Live v → h.store.retainedSize v = h.store.size v ∧
        ∀ s' h', ofSnapshot s' = .ok h' → s'.nodes.map (·.shape) = s.nodes.map (·.shape) →
          s'.roots = s.roots → (∀ u, u ≠ v → h'.store.size u = h.store.size u) →
          ∀ w, h.Has w → w ≠ v → h'.store.retainedSize w = h.store.retainedSize w) := by
  classical
  have sound := sound_of_ofSnapshot accepted
  obtain ⟨b, told, sum⟩ := sound.retained_toNat has
  refine ⟨fun live => ⟨b, told, ?_⟩, fun dead => ⟨?_, ?_⟩⟩
  · rw [sum, bytesKept]
    congr 1
    refine Finset.sum_congr (Finset.filter_congr fun u _ => ?_) fun _ _ => rfl
    refine ⟨?_, .inr⟩
    rintro (rfl | kept)
    · exact keptBy_self live
    · exact kept
  · obtain ⟨r, held⟩ := exists_holds has
    have mem : v ∈ h.nodeIds.toFinset := by
      have bound : v.index ∈ List.range h.size := List.mem_range.mpr has
      exact List.mem_toFinset.mpr (List.mem_map.mpr ⟨v.index, bound, NodeId.ofIndex_index v⟩)
    have alone : ∀ u, (u = v ∨ h.KeptBy v u) ↔ u = v :=
      fun u => ⟨fun h => h.elim id fun kept => absurd (kept.live sound) dead, .inl⟩
    rw [Finset.filter_congr fun u _ => alone u, Finset.filter_eq', if_pos mem,
      Finset.sum_singleton] at sum
    have limit := r.size.toNat_lt
    have same : b = r.size := by
      rw [← UInt64.toNat_inj, sum, bytes, size_of_holds held]
      simp only [Except.toOption, Option.elim_some, sizeLimit]
      omega
    rw [told, size_of_holds held, same]
  · exact fun s' h' accepted' shapes roots sizes w has_w ne =>
      retainedSize_eq_of_sizes accepted accepted' shapes roots dead sizes has_w ne

theorem live_knot : knotHeap.Live ⟨3⟩ ∧ ¬knotHeap.Live ⟨5⟩ := by
  have sound := sound_of_ofSnapshot ofSnapshot_knot
  have order : knotHeap.graph.postorder = [0, 4, 3, 2, 1, 6] := by
    rw [graph_knot]
    cbv
  constructor
  · rw [sound.live_iff (has_knot (by decide)), ← Graph.mem_postorder sound.inRange, order]
    decide
  · rw [sound.live_iff (has_knot (by decide)), ← Graph.mem_postorder sound.inRange, order]
    decide

theorem retainedSize_knot :
    (∃ b, knotHeap.store.retainedSize ⟨3⟩ = .ok b ∧
      b.toNat = min sizeLimit (knotHeap.bytesKept ⟨3⟩)) ∧
      knotHeap.bytesKept ⟨3⟩ = 56 ∧
      knotHeap.store.retainedSize ⟨5⟩ = knotHeap.store.size ⟨5⟩ := by
  have kept := (retainedSize_eq_capped_bytesKept ofSnapshot_knot (v := ⟨3⟩)
    (has_knot (by decide))).1 live_knot.1
  have apart := (retainedSize_eq_capped_bytesKept ofSnapshot_knot (v := ⟨5⟩)
    (has_knot (by decide))).2 live_knot.2
  have told : knotHeap.store.retainedSize ⟨3⟩ = .ok 56 := by
    have sizes_eq : knotHeap.sizes = #[64, 32, 24, 32, 24, 24] := by
      change (recordsOfSnapshot knot).map (·.size) = _
      rw [records_knot, List.map_toArray]
      rfl
    change lookUp (knotHeap.graph.retainedSizes knotHeap.dominators knotHeap.sizes) ⟨3⟩ = _
    rw [graph_knot, dominators_knot, sizes_eq]
    cbv
  refine ⟨kept, ?_, apart.1⟩
  obtain ⟨b, eq, capped⟩ := kept
  obtain rfl := Except.ok.inj (eq.symm.trans told)
  have below : (56 : UInt64).toNat < sizeLimit := by decide
  have literal : (56 : UInt64).toNat = 56 := rfl
  omega

end HeapLens.Heap
