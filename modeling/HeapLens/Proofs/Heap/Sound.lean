import HeapLens.Proofs.Heap.Validation
import HeapLens.Store.Basic

set_option autoImplicit false

namespace HeapLens.Heap

/-- Whether a heap has a node of that number. -/
def Has (h : Heap) (id : NodeId) : Prop := id.index < h.size

def Holds (h : Heap) (id : NodeId) (r : Record) : Prop := h.records[id.index]? = some r

/-- Whether the node of a number is a class. -/
def HasClass (h : Heap) (id : NodeId) : Prop := ∃ r, h.Holds id r ∧ r.kind = .classNode

/--
Whether a node refers to another one: by its class, its superclass or its loader, by a field or a
static, or by a slot.
-/
def Refers (h : Heap) (u w : NodeId) : Prop :=
  ∃ r, h.Holds u r ∧
    (r.classId = w ∨ r.shape.superclass? = some w ∨ r.shape.loader? = some w ∨
      (∃ f ∈ r.shape.fields, f.cell = .ref w) ∨ Cell.ref w ∈ r.shape.elements)

/-- What the checks ensure. -/
structure Sound (h : Heap) : Prop where
  few : h.size < 4294967295
  refers_exist : ∀ u w, h.Refers u w → h.Has w
  class_isClass : ∀ id r, h.Holds id r → h.HasClass r.classId
  superclass_isClass : ∀ id r c, h.Holds id r → r.shape.superclass? = some c → h.HasClass c
  chains_end : ∀ id, h.Has id → Hierarchy.Ends (parentIndex h.records) id.index
  roots_exist : ∀ r ∈ h.roots, h.Has r
  dominators_eq : h.dominators = (graphOf h.records h.roots).immediateDominators
  retained_eq : h.retained =
    (graphOf h.records h.roots).retainedSizes h.dominators (h.records.map (·.size))

variable {s : Snapshot} {h : Heap}

theorem lookUp_of_getElem? {α : Type} {table : Array α} {id : NodeId} {a : α}
    (found : table[id.index]? = some a) : lookUp table id = .ok a := by
  rw [lookUp, found]

theorem record_of_holds {id : NodeId} {r : Record} (held : h.Holds id r) :
    h.record id = .ok r := by
  rw [record, held]

theorem answer_of_holds {α : Type} {id : NodeId} {r : Record} (held : h.Holds id r)
    (f : Record → α) : (h.record id).map f = .ok (f r) := by
  rw [record_of_holds held]
  rfl

theorem classAnswer_of_holds {α : Type} {id : NodeId} {r : Record} (held : h.Holds id r)
    (isClass : r.kind = .classNode) (f : Record → α) : (h.classRecord id).map f = .ok (f r) := by
  have found : h.classRecord id = .ok r := by
    rw [classRecord, record_of_holds held]
    exact if_pos isClass
  rw [found]
  rfl

theorem classAnswer_of_ne {α : Type} {id : NodeId} {r : Record} (held : h.Holds id r)
    (other : r.kind ≠ .classNode) (f : Record → α) :
    (h.classRecord id).map f = .error (.corrupt .notClass) := by
  have refused : h.classRecord id = .error (.corrupt .notClass) := by
    rw [classRecord, record_of_holds held]
    exact if_neg other
  rw [refused]
  rfl

theorem className_of_eq_some {id : NodeId} {r : Record} {name : String} (held : h.Holds id r)
    (named : r.shape.className? = some name) : h.store.className id = .ok name := by
  change h.className id = _
  simp only [className, record_of_holds held, bind, Except.bind, named]

theorem className_of_eq_none {id : NodeId} {r : Record} (held : h.Holds id r)
    (unnamed : r.shape.className? = none) :
    h.store.className id = .error (.corrupt .notClass) := by
  change h.className id = _
  simp only [className, record_of_holds held, bind, Except.bind, unnamed]

theorem Holds.has {id : NodeId} {r : Record} (held : h.Holds id r) : h.Has id :=
  (Array.getElem?_eq_some_iff.mp held).1

theorem exists_holds {id : NodeId} (has : h.Has id) : ∃ r, h.Holds id r :=
  ⟨h.records[id.index], Array.getElem?_eq_getElem has⟩

theorem HasClass.has {id : NodeId} (isClass : h.HasClass id) : h.Has id := by
  obtain ⟨r, held, _⟩ := isClass
  exact held.has

theorem valid_of_ofSnapshot (accepted : ofSnapshot s = .ok h) :
    s.Valid ∧ h = assemble (recordsOfSnapshot s) s.roots := by
  have outcome := ofSnapshot_outcome s
  rw [accepted] at outcome
  exact outcome

theorem ofSnapshot_of_defect? (flawless : defect? (recordsOfSnapshot s) s.roots = none) :
    ofSnapshot s = .ok (assemble (recordsOfSnapshot s) s.roots) := by
  rw [recordsOfSnapshot] at flawless
  simp only [ofSnapshot, flawless, recordsOfSnapshot]

theorem Sound.index_ofIndex (sound : h.Sound) {i : Nat} (bound : i < h.size) :
    (NodeId.ofIndex i).index = i := by
  have few := sound.few
  exact NodeId.index_ofIndex (by simp only [UInt64.size]; omega)

theorem Sound.exists_index (sound : h.Sound) {i : Nat} (bound : i < h.size) :
    ∃ id : NodeId, id.index = i :=
  ⟨.ofIndex i, sound.index_ofIndex bound⟩

theorem holds_iff (accepted : ofSnapshot s = .ok h) {id : NodeId} {r : Record} :
    h.Holds id r ↔ ∃ n, s.Describes id n ∧ complete (metaclass? s.nodes) id.index n = r := by
  obtain ⟨_, rfl⟩ := valid_of_ofSnapshot accepted
  rw [Holds, assemble, getElem?_recordsOfSnapshot, Option.map_eq_some_iff]
  rfl

theorem size_of_ofSnapshot (accepted : ofSnapshot s = .ok h) : h.size = s.nodes.length := by
  obtain ⟨_, rfl⟩ := valid_of_ofSnapshot accepted
  exact size_recordsOfSnapshot s

theorem has_iff_of_ofSnapshot (accepted : ofSnapshot s = .ok h) {id : NodeId} :
    h.Has id ↔ id.index < s.nodes.length := by
  rw [Has, size_of_ofSnapshot accepted]

theorem hasClass_of_isClass (accepted : ofSnapshot s = .ok h) {id : NodeId}
    (isClass : s.IsClass id) : h.HasClass id := by
  obtain ⟨n, described, kind⟩ := isClass
  exact ⟨_, (holds_iff accepted).mpr ⟨n, described, rfl⟩, kind⟩

/-- Every accepted heap is sound. -/
theorem sound_of_ofSnapshot (accepted : ofSnapshot s = .ok h) : h.Sound := by
  obtain ⟨valid, eq⟩ := valid_of_ofSnapshot accepted
  have size_eq := size_of_ofSnapshot accepted
  have classes {id : NodeId} {n : Node} (described : s.Describes id n) :
      s.IsClass (complete (metaclass? s.nodes) id.index n).classId := by
    cases given : n.shape.classId? with
    | none => exact isClass_classId valid.few described given
    | some c =>
      have : (complete (metaclass? s.nodes) id.index n).classId = c := by
        simp [complete, given]
      rw [this]
      exact (valid.nodes id n described).class_isClass c given
  refine
    { few := size_eq ▸ valid.few
      refers_exist := ?_
      class_isClass := ?_
      superclass_isClass := ?_
      chains_end := ?_
      roots_exist := ?_
      dominators_eq := by rw [eq]; rfl
      retained_eq := by rw [eq]; rfl }
  · rintro u w ⟨r, held, refers⟩
    obtain ⟨n, described, rfl⟩ := (holds_iff accepted).mp held
    rw [Has, size_eq]
    rcases refers with rfl | named
    · exact exists_of_isClass (classes described)
    · exact (valid.nodes u n described).names_exist w (.inr named)
  · intro id r held
    obtain ⟨n, described, rfl⟩ := (holds_iff accepted).mp held
    exact hasClass_of_isClass accepted (classes described)
  · intro id r c held given
    obtain ⟨n, described, rfl⟩ := (holds_iff accepted).mp held
    exact hasClass_of_isClass accepted
      ((valid.nodes id n described).superclass_isClass c given)
  · intro id has
    subst eq
    exact ends_of_valid valid (by rwa [Snapshot.Exists, ← size_eq])
  · intro r mem
    rw [Has, size_eq]
    exact valid.roots_exist r (by rw [eq] at mem; exact mem)

end HeapLens.Heap
