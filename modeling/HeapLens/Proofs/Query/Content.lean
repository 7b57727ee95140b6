import HeapLens.Proofs.Store.Requests
import HeapLens.Query.Content

set_option autoImplicit false

namespace HeapLens

/-- Whether a handle names a node of the heap at a place of the session. -/
structure Handle.Within (x : Handle) (place : Nat) (h : Heap) : Prop where
  store_eq : x.store = place
  has : h.Has x.node

/-- Whether the value is no handle, or names a node of the heap. -/
def QueryValue.Within (v : QueryValue) (place : Nat) (h : Heap) : Prop :=
  ∀ x, v = .handle x → x.Within place h

def UnsupportedError (e : QueryError) : Prop := ∃ typeName, e = .unsupportedType typeName

structure Session.Opens (session : Session) (place : Nat) (h : Heap) : Prop where
  sound : h.Sound
  storeAt_eq : session.storeAt place = .ok h.store

@[simp] theorem Task.on_ok {α : Type} (task : Task) (node : NodeId) (a : α) :
    task.on node (.ok a) = .ok a := rfl

@[simp] theorem Task.on_error {α : Type} (task : Task) (node : NodeId) (fault : Fault) :
    task.on node (.error fault : Except Fault α) = .error (.store task node fault) := rfl

theorem Outcome.on {α : Type} {p : α → Prop} {q : Fault → Prop} {q' : QueryError → Prop}
    {x : Except Fault α} (hx : Outcome p q x) (task : Task) (node : NodeId)
    (hq : ∀ fault, q fault → q' (.store task node fault)) : Outcome p q' (task.on node x) := by
  cases x with
  | ok a => exact hx
  | error fault => exact hq fault hx

theorem Succeeds.on {α : Type} {p : α → Prop} {q : QueryError → Prop} {x : Except Fault α}
    (hx : Succeeds p x) (task : Task) (node : NodeId) : Outcome p q (task.on node x) :=
  Outcome.on hx task node fun _ => False.elim

variable {session : Session} {place : Nat} {h : Heap} {x : Handle} {node : NodeId}

theorem Handle.Within.sibling (within : x.Within place h) (has : h.Has node) :
    (x.sibling node).Within place h :=
  ⟨within.store_eq, has⟩

theorem Session.Opens.storeOf_eq (opens : session.Opens place h) (within : x.Within place h) :
    session.storeOf x = .ok h.store := by
  rw [Session.storeOf, within.store_eq]
  exact opens.storeAt_eq

theorem Session.Opens.storeOf_succeeds (opens : session.Opens place h)
    (within : x.Within place h) : Succeeds (· = h.store) (session.storeOf x) := by
  rw [opens.storeOf_eq within]
  exact rfl

namespace QueryValue

theorem within_handle (within : x.Within place h) : (handle x).Within place h := by
  rintro y eq
  obtain rfl := QueryValue.handle.inj eq
  exact within

theorem within_of_handle?_eq_none {v : QueryValue} (other : v.handle? = none) :
    v.Within place h := by
  rintro y rfl
  cases other

theorem within_ofHandle? {o : Option NodeId} (within : x.Within place h)
    (exist : ∀ w, o = some w → h.Has w) : (ofHandle? (o.map x.sibling)).Within place h := by
  cases o with
  | none => exact within_of_handle?_eq_none rfl
  | some w => exact within_handle (within.sibling (exist w rfl))

theorem ofCell_outcome {c : Cell} (within : x.Within place h) (target : h.HasTarget c) :
    Outcome (fun v => v.Within place h) UnsupportedError (ofCell x c) := by
  cases c with
  | ref w => exact within_handle (within.sibling (target w rfl))
  | wide v => exact ⟨_, rfl⟩
  | unclassified typeName => exact ⟨_, rfl⟩
  | _ => exact within_of_handle?_eq_none rfl

end QueryValue

namespace Heap.Sound

theorem readInt64_succeeds (sound : h.Sound) (has : h.Has node) (name : String) :
    Succeeds (fun _ => True) (h.store.readInt64 node name) := by
  unfold Store.readInt64
  exact (sound.readField_succeeds has name).bind fun _ _ => trivial

theorem arrayCells_succeeds (sound : h.Sound) (has : h.Has node) (length : Nat) :
    Succeeds (fun _ => True) (h.store.arrayCells node length) := by
  unfold Store.arrayCells
  exact (Succeeds.mapM fun i _ => sound.element_succeeds has (UInt32.ofNat i)).bind
    fun _ _ => trivial

theorem stringUnits_succeeds (sound : h.Sound) {array : NodeId} (has : h.Has node)
    (has_array : h.Has array) : Succeeds (fun _ => True) (h.store.stringUnits node array) := by
  unfold Store.stringUnits
  refine (arrayLength_succeeds has_array).bind fun length _ => ?_
  refine (sound.readInt64_succeeds has "coder").bind fun coder _ => ?_
  refine (sound.arrayCells_succeeds has_array _).bind fun cells _ => ?_
  refine (sound.readInt64_succeeds has "count").bind fun count _ => ?_
  cases count <;> trivial

theorem stringContent_succeeds (sound : h.Sound) (has : h.Has node) (limit : Option Nat) :
    Succeeds (fun _ => True) (h.store.stringContent node limit) := by
  unfold Store.stringContent
  refine (sound.classOf_succeeds has).bind fun classId isClass => ?_
  refine (className_succeeds isClass).bind fun name _ => ?_
  by_cases other : name ∉ stringClasses
  · rw [if_pos other]
    trivial
  · rw [if_neg other]
    refine (sound.readField_succeeds has "value").bind fun o targets => ?_
    cases o with
    | none => trivial
    | some c =>
      cases c with
      | ref array =>
        exact (sound.stringUnits_succeeds has (targets _ rfl array rfl)).bind fun _ _ => trivial
      | _ => trivial

theorem boxContent_succeeds (sound : h.Sound) (has : h.Has node) :
    Succeeds (fun _ => True) (h.store.boxContent node) := by
  unfold Store.boxContent
  refine (sound.classOf_succeeds has).bind fun classId isClass => ?_
  refine (className_succeeds isClass).bind fun name _ => ?_
  by_cases box : name ∈ boxClasses
  · rw [if_pos box]
    exact (sound.readField_succeeds has "value").mono fun _ _ => trivial
  · rw [if_neg box]
    trivial

end Heap.Sound

namespace Session.Opens

theorem text_succeeds (opens : session.Opens place h) (within : x.Within place h) :
    Succeeds (fun _ => True) (x.text session) := by
  unfold Handle.text
  refine ((opens.storeOf_succeeds within).on _ _).bind ?_
  rintro store rfl
  refine ((opens.sound.stringContent_succeeds within.has none).on _ _).bind fun string _ => ?_
  cases string with
  | some text => trivial
  | none =>
    refine ((opens.sound.boxContent_succeeds within.has).on _ _).bind fun box _ => ?_
    cases box <;> trivial

theorem displayText_succeeds (opens : session.Opens place h) {v : QueryValue}
    (within : v.Within place h) : Succeeds (fun _ => True) (v.displayText session) := by
  cases v with
  | handle x => exact (opens.text_succeeds (within x rfl)).map some fun _ _ => trivial
  | _ => trivial

end Session.Opens

end HeapLens
