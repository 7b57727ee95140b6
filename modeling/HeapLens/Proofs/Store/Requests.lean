import HeapLens.Proofs.Heap.Retention
import HeapLens.Proofs.Outcome
import HeapLens.Store.ClassChain

set_option autoImplicit false

namespace HeapLens.Heap

def HasTarget (h : Heap) (c : Cell) : Prop := ∀ w, c = .ref w → h.Has w

variable {h : Heap} {id : NodeId}

theorem answer_succeeds {α : Type} {p : α → Prop} (has : h.Has id) (f : Record → α)
    (hp : ∀ r, h.Holds id r → p (f r)) : Succeeds p ((h.record id).map f) := by
  obtain ⟨r, held⟩ := exists_holds has
  rw [answer_of_holds held]
  exact hp r held

theorem classAnswer_succeeds {α : Type} {p : α → Prop} (isClass : h.HasClass id) (f : Record → α)
    (hp : ∀ r, h.Holds id r → p (f r)) : Succeeds p ((h.classRecord id).map f) := by
  obtain ⟨r, held, kind⟩ := isClass
  rw [classAnswer_of_holds held kind]
  exact hp r held

theorem kind_succeeds (has : h.Has id) :
    Succeeds (fun k => k = .classNode → h.HasClass id) (h.store.kind id) :=
  answer_succeeds has Record.kind fun r held kind => ⟨r, held, kind⟩

theorem size_succeeds (has : h.Has id) : Succeeds (fun _ => True) (h.store.size id) :=
  answer_succeeds has Record.size fun _ _ => trivial

theorem address_succeeds (has : h.Has id) : Succeeds (fun _ => True) (h.store.address id) :=
  answer_succeeds has Record.address fun _ _ => trivial

theorem className_succeeds (isClass : h.HasClass id) :
    Succeeds (fun _ => True) (h.store.className id) := by
  obtain ⟨r, held, kind⟩ := isClass
  cases named : r.shape.className? with
  | some name =>
    rw [className_of_eq_some held named]
    trivial
  | none =>
    rw [Record.kind] at kind
    cases shape : r.shape <;> simp [shape, Shape.kind, Shape.className?] at kind named

/-- The slots that an array is said to have are there. -/
theorem arrayLength_succeeds (has : h.Has id) :
    Succeeds (fun o => ∀ n : UInt32, o = some n → ∀ i < n.toNat,
      ∃ c, h.store.element id (UInt32.ofNat i) = .ok (some c)) (h.store.arrayLength id) := by
  refine answer_succeeds has _ fun r held n told i low => ?_
  have length_eq : UInt32.ofNat r.shape.elements.length = n := by
    split at told
    · exact Option.some.inj told
    · cases told
  have bound : i < r.shape.elements.length := by
    rw [← length_eq, UInt32.toNat_ofNat'] at low
    exact low.trans_le (Nat.mod_le _ _)
  have word : (UInt32.ofNat i).toNat = i := by
    rw [UInt32.toNat_ofNat']
    exact Nat.mod_eq_of_lt (low.trans n.toNat_lt)
  have slot : h.store.element id (UInt32.ofNat i) =
      .ok r.shape.elements[(UInt32.ofNat i).toNat]? := answer_of_holds held _
  rw [slot, word, List.getElem?_eq_getElem bound]
  exact ⟨_, rfl⟩

namespace Sound

theorem hasTarget (sound : h.Sound) {r : Record} {c : Cell} (held : h.Holds id r)
    (mem : (∃ f ∈ r.shape.fields, f.cell = c) ∨ c ∈ r.shape.elements) : h.HasTarget c := by
  rintro w rfl
  exact sound.refers_exist id w ⟨r, held, .inr (.inr (.inr mem))⟩

theorem classOf_succeeds (sound : h.Sound) (has : h.Has id) :
    Succeeds h.HasClass (h.store.classOf id) :=
  answer_succeeds has Record.classId fun r held => sound.class_isClass id r held

theorem objectFields_succeeds (sound : h.Sound) (has : h.Has id) :
    Succeeds (fun fields => ∀ f ∈ fields, h.HasTarget f.cell) (h.store.objectFields id) := by
  refine answer_succeeds has _ fun r held f mem => ?_
  split at mem
  · cases mem
  · exact sound.hasTarget held (.inl ⟨f, mem, rfl⟩)

theorem element_succeeds (sound : h.Sound) (has : h.Has id) (k : UInt32) :
    Succeeds (fun o => ∀ c, o = some c → h.HasTarget c) (h.store.element id k) :=
  answer_succeeds has _ fun _ held _ found =>
    sound.hasTarget held (.inr (List.mem_of_getElem? found))

theorem staticFields_succeeds (sound : h.Sound) (isClass : h.HasClass id) :
    Succeeds (fun fields => ∀ f ∈ fields, h.HasTarget f.cell) (h.store.staticFields id) :=
  classAnswer_succeeds isClass _ fun _ held f mem => sound.hasTarget held (.inl ⟨f, mem, rfl⟩)

theorem superclass_succeeds (sound : h.Sound) (isClass : h.HasClass id) :
    Succeeds (fun o => ∀ p, o = some p → h.HasClass p) (h.store.superclass id) :=
  classAnswer_succeeds isClass _ fun r held p given => sound.superclass_isClass id r p held given

theorem classLoader_succeeds (sound : h.Sound) (isClass : h.HasClass id) :
    Succeeds (fun o => ∀ w, o = some w → h.Has w) (h.store.classLoader id) :=
  classAnswer_succeeds isClass _ fun r held w given =>
    sound.refers_exist id w ⟨r, held, .inr (.inr (.inl given))⟩

theorem retainedSize_succeeds (sound : h.Sound) (has : h.Has id) :
    Succeeds (fun _ => True) (h.store.retainedSize id) := by
  rw [sound.retainedSize_eq has]
  trivial

theorem dominator_succeeds (sound : h.Sound) (has : h.Has id) :
    Succeeds (fun o => ∀ d, o = some d → h.Has d) (h.store.dominator id) := by
  obtain ⟨o, found, told⟩ := sound.dominator_eq has
  rw [told]
  intro d eq
  obtain ⟨i, rfl, rfl⟩ := Option.map_eq_some_iff.mp eq
  have immediate := (Graph.immediateDominators_eq_some_iff sound.inRange (has_iff.mpr has)).mp found
  have low : i < h.size := size_graph h ▸ immediate.2.1
  rw [Has, sound.index_ofIndex low]
  exact low

theorem readField_succeeds (sound : h.Sound) (has : h.Has id) (name : String) :
    Succeeds (fun o => ∀ c, o = some c → h.HasTarget c) (h.store.readField id name) := by
  unfold Store.readField
  refine (sound.objectFields_succeeds has).bind fun fields targets c eq => ?_
  obtain ⟨f, found, rfl⟩ := Option.map_eq_some_iff.mp eq
  exact targets f (List.mem_of_find?_eq_some found)

end Sound

end HeapLens.Heap
