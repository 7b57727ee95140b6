import HeapLens.Collection.Strategy
import HeapLens.Proofs.Store.Requests

set_option autoImplicit false

namespace HeapLens

namespace Shape

def objectFields : Shape → List Field
  | .plain _ fields | .loader _ fields => fields
  | _ => []

def statics : Shape → List Field
  | .classNode _ _ _ statics => statics
  | _ => []

end Shape

namespace Heap

def shape? (h : Heap) (n : NodeId) : Option Shape := h.records[n.index]?.map Record.shape

def fieldsOf (h : Heap) (n : NodeId) : List Field := (h.shape? n).elim [] Shape.objectFields

def staticsOf (h : Heap) (c : NodeId) : List Field := (h.shape? c).elim [] Shape.statics

def typeName? (h : Heap) (n : NodeId) : Option String :=
  h.records[n.index]?.bind fun r => (h.shape? r.classId).bind Shape.className?

/-- The slots of an array. -/
def cellsOf (h : Heap) (a : NodeId) : List Cell := (h.shape? a).elim [] Shape.elements

/-- The slots of an array, as far as its length of 32 bits counts them. -/
def slotsOf (h : Heap) (a : NodeId) : List Cell :=
  (h.cellsOf a).take ((h.cellsOf a).length % 4294967296)

/-- The cell of the first field of an object that has the name. -/
def field? (h : Heap) (n : NodeId) (name : String) : Option Cell :=
  ((h.fieldsOf n).find? (·.name = name)).map (·.cell)

/-- The node that this cell refers to. -/
def ref? (h : Heap) (n : NodeId) (name : String) : Option NodeId := (h.field? n name).bind Cell.ref?

def int? (h : Heap) (n : NodeId) (name : String) : Option Int64 :=
  (h.field? n name).bind Cell.int64?

variable {h : Heap} {n a w : NodeId} {r : Record} {name : String}

theorem shape?_of_holds (held : h.Holds n r) : h.shape? n = some r.shape := by
  rw [Holds] at held
  simp [shape?, held]

theorem shape?_of_describes {s : Snapshot} {d : Node} (accepted : ofSnapshot s = .ok h)
    (described : s.Describes n d) : h.shape? n = some d.shape :=
  shape?_of_holds ((holds_iff accepted).mpr ⟨d, described, rfl⟩)

theorem typeName?_of_holds (held : h.Holds n r) :
    h.typeName? n = (h.shape? r.classId).bind Shape.className? := by
  rw [Holds] at held
  rw [typeName?, held, Option.bind_some]

theorem hasClass_iff :
    h.HasClass n ↔ ∃ name superclass loader statics,
      h.shape? n = some (.classNode name superclass loader statics) := by
  constructor
  · rintro ⟨r, held, kind⟩
    have shape_eq := shape?_of_holds held
    rw [Record.kind] at kind
    cases shape : r.shape with
    | classNode name superclass loader statics => exact ⟨_, _, _, _, shape ▸ shape_eq⟩
    | _ => simp [shape, Shape.kind] at kind
  · rintro ⟨name, superclass, loader, statics, shape_eq⟩
    obtain ⟨r, held, shape⟩ := Option.map_eq_some_iff.mp shape_eq
    exact ⟨r, held, by simp [Record.kind, shape, Shape.kind]⟩

theorem objectFields_eq (has : h.Has n) : h.store.objectFields n = .ok (h.fieldsOf n) := by
  obtain ⟨r, held⟩ := exists_holds has
  have told : h.store.objectFields n =
      .ok (if r.kind = .classNode then [] else r.shape.fields) := answer_of_holds held _
  rw [told, fieldsOf, shape?_of_holds held, Record.kind]
  cases r.shape <;> simp [Shape.kind, Shape.fields, Shape.objectFields]

theorem staticFields_eq (isClass : h.HasClass n) :
    h.store.staticFields n = .ok (h.staticsOf n) := by
  obtain ⟨r, held, kind⟩ := isClass
  have told : h.store.staticFields n = .ok r.shape.fields := classAnswer_of_holds held kind _
  rw [told, staticsOf, shape?_of_holds held]
  rw [Record.kind] at kind
  cases shape : r.shape <;> simp [shape, Shape.kind] at kind
  rfl

theorem readField_eq (has : h.Has n) (name : String) :
    h.store.readField n name = .ok (h.field? n name) := by
  rw [Store.readField, objectFields_eq has]
  rfl

theorem readRef_eq (has : h.Has n) (name : String) :
    h.store.readRef n name = .ok (h.ref? n name) := by
  rw [Store.readRef, readField_eq has]
  rfl

theorem cellsOf_eq {shape : Shape} (found : h.shape? a = some shape) :
    h.cellsOf a = shape.elements := by
  rw [cellsOf, found]
  rfl

theorem slotsOf_eq_cellsOf (short : (h.cellsOf a).length < 4294967296) :
    h.slotsOf a = h.cellsOf a := by
  rw [slotsOf, Nat.mod_eq_of_lt short, List.take_length]

theorem slotsOf_eq_nil (full : (h.cellsOf a).length = 4294967296) : h.slotsOf a = [] := by
  rw [slotsOf, full, Nat.mod_self, List.take_zero]

theorem slotsOf_of_short {classId : NodeId} {cells : List Cell}
    (shape : h.shape? a = some (.array classId cells)) (short : cells.length < 4294967296) :
    h.slotsOf a = cells := by
  have all := cellsOf_eq shape
  rw [slotsOf_eq_cellsOf (by rwa [all]), all]
  rfl

theorem length_slotsOf (held : h.Holds a r) :
    (h.slotsOf a).length = r.shape.elements.length % 4294967296 := by
  rw [slotsOf, cellsOf_eq (shape?_of_holds held), List.length_take]
  exact Nat.min_eq_left (Nat.mod_le _ _)

theorem lengthOf_eq (has : h.Has a) : h.store.lengthOf (some a) = .ok (h.slotsOf a).length := by
  obtain ⟨r, held⟩ := exists_holds has
  have told : h.store.arrayLength a = .ok (if r.kind = .array
      then some (UInt32.ofNat r.shape.elements.length) else none) := answer_of_holds held _
  rw [Store.lengthOf, told, length_slotsOf held, Record.kind]
  cases r.shape <;> simp [Shape.kind, Shape.elements, UInt32.toNat_ofNat']

theorem element_eq (has : h.Has a) {i : Nat} (low : i < (h.slotsOf a).length) :
    h.store.element a (UInt32.ofNat i) = .ok (some (h.slotsOf a)[i]) := by
  obtain ⟨r, held⟩ := exists_holds has
  have told : h.store.element a (UInt32.ofNat i) =
      .ok r.shape.elements[(UInt32.ofNat i).toNat]? := answer_of_holds held _
  have length_eq := length_slotsOf held
  have word : (UInt32.ofNat i).toNat = i := by
    rw [UInt32.toNat_ofNat']
    omega
  rw [told, word, ← List.getElem?_eq_getElem low, slotsOf, cellsOf_eq (shape?_of_holds held),
    List.getElem?_take_of_lt (by omega)]

theorem slot_eq (has : h.Has a) {i : Nat} (low : i < (h.slotsOf a).length) :
    h.store.slot a i = .ok (h.slotsOf a)[i] := by
  rw [Store.slot, element_eq has low]
  rfl

namespace Sound

theorem exists_typeName (sound : h.Sound) (has : h.Has n) :
    ∃ c name, h.store.classOf n = .ok c ∧ h.store.className c = .ok name ∧
      h.typeName? n = some name := by
  obtain ⟨r, held⟩ := exists_holds has
  obtain ⟨name, superclass, loader, statics, shape⟩ :=
    hasClass_iff.mp (sound.class_isClass n r held)
  obtain ⟨d, held_class, shape_eq⟩ := Option.map_eq_some_iff.mp shape
  refine ⟨r.classId, name, answer_of_holds held _, ?_, ?_⟩
  · exact className_of_eq_some held_class (by rw [shape_eq]; rfl)
  · rw [typeName?_of_holds held, shape]
    rfl

theorem hasTarget_of_field? (sound : h.Sound) {c : Cell} (found : h.field? n name = some c) :
    h.HasTarget c := by
  obtain ⟨f, at_n, rfl⟩ := Option.map_eq_some_iff.mp found
  have mem := List.mem_of_find?_eq_some at_n
  rw [fieldsOf, shape?] at mem
  cases at_index : h.records[n.index]? with
  | none => simp [at_index] at mem
  | some r =>
    refine sound.hasTarget at_index (.inl ⟨f, ?_, rfl⟩)
    cases shape : r.shape <;> simp_all [Shape.objectFields, Shape.fields]

theorem has_of_ref? (sound : h.Sound) (found : h.ref? n name = some w) : h.Has w := by
  obtain ⟨c, at_n, refers⟩ := Option.bind_eq_some_iff.mp found
  cases c <;> simp [Cell.ref?] at refers
  subst refers
  exact sound.hasTarget_of_field? at_n _ rfl

theorem hasTarget_of_mem_slotsOf (sound : h.Sound) {c : Cell} (mem : c ∈ h.slotsOf a) :
    h.HasTarget c := by
  have mem := List.mem_of_mem_take mem
  rw [cellsOf, shape?] at mem
  cases at_index : h.records[a.index]? with
  | none => simp [at_index] at mem
  | some r => exact sound.hasTarget at_index (.inr (by simpa [at_index] using mem))

end Sound

end Heap

end HeapLens
