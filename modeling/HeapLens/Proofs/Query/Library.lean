import HeapLens.Proofs.Collection.View
import HeapLens.Proofs.Query.Path
import HeapLens.Query.Library

set_option autoImplicit false

namespace HeapLens

/-- Whether a call of a function, in a heap, may fail for the reason given. -/
def Function.MayFail (f : Function) : QueryError → Prop
  | .store _ _ fault =>
    (f = .size ∧ SizeFault fault) ∨ (f = .valueAt ∧ fault = .corrupt .cyclicBuckets)
  | .unsupportedType _ => f = .valueAt ∨ f = .element ∨ f = .field
  | .invalidInteger _ => f = .readInteger
  | .arity name expected _ => name = f.name ∧ expected = f.parameters.length
  | .argumentType name position expected =>
    name = f.name ∧ f.parameters[position]? = some expected
  | .fieldNotFound .. => False
  | .notNavigable .. => False
  | .malformedPath .. => False
  | .unknownFunction _ => False

variable {session : Session} {place : Nat} {h : Heap} {l : Library} {v : QueryValue}

theorem UnsupportedError.mayFail {e : QueryError} (unsupported : UnsupportedError e) {f : Function}
    (may : f = .valueAt ∨ f = .element ∨ f = .field) : f.MayFail e := by
  obtain ⟨typeName, rfl⟩ := unsupported
  exact may

theorem SizeError.mayFail {e : QueryError} (error : SizeError e) : Function.size.MayFail e := by
  obtain ⟨task, node, fault, cause, rfl⟩ := error
  exact .inl ⟨rfl, cause⟩

theorem EntryError.mayFail {e : QueryError} (error : EntryError e) :
    Function.valueAt.MayFail e := by
  rcases error with ⟨task, node, rfl⟩ | unsupported
  · exact .inr ⟨rfl, rfl⟩
  · exact unsupported.mayFail (.inl rfl)

namespace QueryValue

theorem textFor_outcome {f : Function} {position : Nat}
    (typed : f.parameters[position]? = some .text) (v : QueryValue) :
    Outcome (fun _ => True) f.MayFail (v.textFor f position) := by
  cases v with
  | null => trivial
  | text s => trivial
  | _ => exact ⟨rfl, typed⟩

theorem integerFor_outcome {f : Function} {position : Nat}
    (typed : f.parameters[position]? = some .integer) (v : QueryValue) :
    Outcome (fun _ => True) f.MayFail (v.integerFor f position) := by
  cases v with
  | null => trivial
  | integer n => trivial
  | _ => exact ⟨rfl, typed⟩

theorem within_null : QueryValue.null.Within place h := within_of_handle?_eq_none rfl

end QueryValue

theorem readInteger_outcome (text : String) :
    Outcome (fun _ => True) Function.readInteger.MayFail (readInteger text) := by
  unfold readInteger
  cases Text.readLiteral? text.toList with
  | some n => trivial
  | none => exact rfl

namespace Session.Opens

theorem askNode_outcome {α : Type} {p : α → Prop} {q : QueryError → Prop} {task : Task}
    {otherwise : α} {ask : Handle → Store → Except QueryError α} (opens : session.Opens place h)
    (within : v.Within place h) (no_handle : p otherwise)
    (asked : ∀ x, x.Within place h → Outcome p q (ask x h.store)) :
    Outcome p q (v.askNode session task otherwise ask) := by
  cases v with
  | handle x =>
    refine ((opens.storeOf_succeeds (within x rfl)).on task x.node).bind ?_
    rintro store rfl
    exact asked x (within x rfl)
  | _ => exact no_handle

theorem classOf_succeeds (opens : session.Opens place h) (within : v.Within place h) :
    Succeeds (fun v => v.Within place h) (v.classOf session) := by
  refine opens.askNode_outcome within QueryValue.within_null fun x within_x => ?_
  refine ((opens.sound.classOf_succeeds within_x.has).on _ _).bind fun classId isClass => ?_
  exact QueryValue.within_handle (within_x.sibling isClass.has)

theorem className_succeeds (opens : session.Opens place h) (within : v.Within place h) :
    Succeeds (fun _ => True) (v.className session) := by
  refine opens.askNode_outcome within trivial fun x within_x => ?_
  refine ((opens.sound.classOf_succeeds within_x.has).on _ _).bind fun classId isClass => ?_
  exact (Heap.className_succeeds isClass).on _ _

theorem display_succeeds (opens : session.Opens place h) (within : v.Within place h) :
    Succeeds (fun v => v.Within place h) (v.display session) := by
  unfold QueryValue.display
  refine (opens.displayText_succeeds within).bind fun text _ => ?_
  cases text <;> exact QueryValue.within_of_handle?_eq_none rfl

theorem stringContent_succeeds (opens : session.Opens place h) (within : v.Within place h)
    (limit : Int64) : Succeeds (fun v => v.Within place h) (v.stringContent session limit) := by
  refine opens.askNode_outcome within (QueryValue.within_of_handle?_eq_none rfl)
    fun x within_x => ?_
  refine ((opens.sound.stringContent_succeeds within_x.has _).on _ _).bind fun text _ => ?_
  cases text <;> exact QueryValue.within_of_handle?_eq_none rfl

theorem arrayLength_succeeds (opens : session.Opens place h) (within : v.Within place h) :
    Succeeds (fun _ => True) (v.arrayLength session) := by
  refine opens.askNode_outcome within trivial fun x within_x => ?_
  exact ((Heap.arrayLength_succeeds within_x.has).on _ _).bind fun _ _ => trivial

theorem element_outcome (opens : session.Opens place h) (within : v.Within place h)
    (index : Int64) :
    Outcome (fun v => v.Within place h) UnsupportedError (v.element session index) := by
  unfold QueryValue.element
  by_cases range : 0 ≤ index.toInt ∧ index.toInt < UInt32.size
  · rw [if_pos range]
    refine opens.askNode_outcome within QueryValue.within_null fun x within_x => ?_
    refine ((opens.sound.element_succeeds within_x.has _).on _ _).bind fun o targets => ?_
    cases o with
    | none => exact QueryValue.within_null
    | some c => exact QueryValue.ofCell_outcome within_x (targets c rfl)
  · rw [if_neg range]
    exact QueryValue.within_null

theorem ownSize_succeeds (opens : session.Opens place h) (within : v.Within place h) :
    Succeeds (fun _ => True) (v.ownSize session) := by
  refine opens.askNode_outcome within trivial fun x within_x => ?_
  exact ((Heap.size_succeeds within_x.has).on _ _).bind fun _ _ => trivial

theorem retainedSize_succeeds (opens : session.Opens place h) (within : v.Within place h) :
    Succeeds (fun _ => True) (v.retainedSize session) := by
  refine opens.askNode_outcome within trivial fun x within_x => ?_
  exact ((opens.sound.retainedSize_succeeds within_x.has).on _ _).bind fun _ _ => trivial

theorem address_succeeds (opens : session.Opens place h) (within : v.Within place h) :
    Succeeds (fun _ => True) (v.address session) := by
  refine opens.askNode_outcome within trivial fun x within_x => ?_
  exact ((Heap.address_succeeds within_x.has).on _ _).bind fun _ _ => trivial

theorem dominator_succeeds (opens : session.Opens place h) (within : v.Within place h) :
    Succeeds (fun v => v.Within place h) (v.dominator session) := by
  refine opens.askNode_outcome within QueryValue.within_null fun x within_x => ?_
  refine ((opens.sound.dominator_succeeds within_x.has).on _ _).bind fun o exist => ?_
  exact QueryValue.within_ofHandle? within_x exist

theorem field_outcome (opens : session.Opens place h) (within : v.Within place h)
    (name : String) :
    Outcome (fun v => v.Within place h) UnsupportedError (v.field session name) := by
  unfold QueryValue.field
  cases v with
  | handle x =>
    dsimp only [QueryValue.handle?]
    by_cases empty : name.isEmpty = true
    · rw [if_pos empty]
      exact QueryValue.within_null
    · rw [if_neg empty]
      have followed := opens.follow_outcome (within x rfl) (.ofName name)
      cases answer : x.follow session (.ofName name) with
      | ok v =>
        rw [answer] at followed
        exact followed
      | error e =>
        rw [answer] at followed
        rcases followed with ⟨field, className, rfl⟩ | ⟨typeName, rfl⟩
        · exact QueryValue.within_null
        · exact ⟨typeName, rfl⟩
  | _ => exact QueryValue.within_null

end Session.Opens

namespace Library

theorem unlessNull_outcome {α : Type} {q : QueryError → Prop}
    {argument : Except QueryError (Option α)} {answer : α → Except QueryError QueryValue}
    (checked : Outcome (fun _ => True) q argument)
    (answered : ∀ a, Outcome (fun v => v.Within place h) q (answer a)) :
    Outcome (fun v => v.Within place h) q (unlessNull argument answer) := by
  unfold unlessNull
  refine checked.bind fun o _ => ?_
  cases o with
  | none => exact QueryValue.within_null
  | some a => exact answered a

theorem valueAt_outcome (opens : session.Opens place h) (reliable : l.catalog.Reliable)
    (within : v.Within place h) (key : String) :
    Outcome (fun v => v.Within place h) Function.valueAt.MayFail (l.valueAt session key v) := by
  unfold valueAt
  cases v with
  | handle x =>
    exact (opens.valueAt_outcome reliable (within x rfl) key).mono (fun _ => id)
      fun _ => EntryError.mayFail
  | _ => exact QueryValue.within_null

theorem sizeOf_outcome (opens : session.Opens place h) (reliable : l.catalog.Reliable)
    (within : v.Within place h) :
    Outcome (fun _ => True) Function.size.MayFail (l.sizeOf session v) := by
  unfold sizeOf
  cases v with
  | handle x =>
    exact (opens.sizeOf_outcome reliable (within x rfl)).mono (fun _ => id)
      fun _ => SizeError.mayFail
  | _ => trivial

/-- What a call of a function preserves, and why it may fail. -/
theorem apply_outcome (opens : session.Opens place h) (reliable : l.catalog.Reliable)
    (f : Function) {arguments : List QueryValue} (within : ∀ v ∈ arguments, v.Within place h) :
    Outcome (fun v => v.Within place h) f.MayFail (l.apply session f arguments) := by
  have first {v : QueryValue} {rest : List QueryValue} (eq : arguments = v :: rest) :
      v.Within place h := within v (eq ▸ List.mem_cons_self)
  have integer (n : Int64) : (QueryValue.integer n).Within place h :=
    QueryValue.within_of_handle?_eq_none rfl
  have text (s : String) : (QueryValue.text s).Within place h :=
    QueryValue.within_of_handle?_eq_none rfl
  unfold apply
  split
  · exact integer _
  · exact (opens.classOf_succeeds (first rfl)).outcome
  · exact (opens.className_succeeds (first rfl)).outcome.map _ fun _ _ => text _
  · exact (opens.display_succeeds (first rfl)).outcome
  · exact text _
  · exact unlessNull_outcome (QueryValue.integerFor_outcome rfl _) fun limit =>
      (opens.stringContent_succeeds (first rfl) limit).outcome
  · exact text _
  · exact unlessNull_outcome (QueryValue.textFor_outcome rfl _) fun key =>
      valueAt_outcome opens reliable (first rfl) key
  · exact (sizeOf_outcome opens reliable (first rfl)).map _ fun _ _ => integer _
  · exact (opens.arrayLength_succeeds (first rfl)).outcome.map _ fun _ _ => integer _
  · exact unlessNull_outcome (QueryValue.integerFor_outcome rfl _) fun index =>
      (opens.element_outcome (first rfl) index).mono (fun _ => id)
        fun _ e => e.mayFail (.inr (.inl rfl))
  · exact (opens.ownSize_succeeds (first rfl)).outcome.map _ fun _ _ => integer _
  · exact (opens.retainedSize_succeeds (first rfl)).outcome.map _ fun _ _ => integer _
  · exact unlessNull_outcome (QueryValue.textFor_outcome rfl _) fun name =>
      (opens.field_outcome (first rfl) name).mono (fun _ => id)
        fun _ e => e.mayFail (.inr (.inr rfl))
  · exact (opens.address_succeeds (first rfl)).outcome.map _ fun _ _ => integer _
  · exact unlessNull_outcome (QueryValue.textFor_outcome rfl _) fun text =>
      (readInteger_outcome text).map _ fun _ _ => integer _
  · exact (opens.dominator_succeeds (first rfl)).outcome
  · exact ⟨rfl, rfl⟩

end Library

/--
Calls and paths that start in an accepted heap that is open lead to nodes of the heap only. A call
fails only as its function may, or because there is no such function, and a path only for a name
that belongs to nothing, a value that leads nowhere, or one of a type that queries do not know.
-/
theorem queries_stay_within {s : Snapshot} (accepted : Heap.ofSnapshot s = .ok h)
    (opened : session.storeAt place = .ok h.store) (builtin : l.catalog = .builtin) :
    (∀ name arguments, (∀ v ∈ arguments, v.Within place h) →
      Outcome (fun v => v.Within place h)
        (fun e => (Function.find? name = none ∧ e = .unknownFunction name) ∨
          ∃ f, Function.find? name = some f ∧ f.MayFail e)
        (l.invoke session name arguments)) ∧
      ∀ (p : Path) (x : Handle), x.Within place h →
        Outcome (fun v => v.Within place h) PathError (p.resolve session x) := by
  have opens : session.Opens place h := ⟨Heap.sound_of_ofSnapshot accepted, opened⟩
  have reliable : l.catalog.Reliable := by
    rw [builtin]
    exact Catalog.reliable_builtin
  constructor
  · intro name arguments within
    unfold Library.invoke
    cases found : Function.find? name with
    | none => exact .inl ⟨rfl, rfl⟩
    | some f =>
      exact (Library.apply_outcome opens reliable f within).mono (fun _ => id)
        fun e may => .inr ⟨f, rfl, may⟩
  · intro p x within
    exact opens.followAll_outcome p.steps (QueryValue.within_handle within)

def knotSession : Session := Session.empty.opening Heap.knotHeap.store

def knotLibrary : Library := ⟨.builtin, ⟨[], 0, ""⟩⟩

theorem queries_knot :
    knotLibrary.invoke knotSession "getDominator" [.handle ⟨0, ⟨4⟩⟩] =
        .ok (.handle ⟨0, ⟨3⟩⟩) ∧
      (QueryValue.handle ⟨0, ⟨3⟩⟩).Within 0 Heap.knotHeap ∧
      Outcome (fun v => v.Within 0 Heap.knotHeap) PathError
        (Path.resolve knotSession ⟨[.field "to", .field "to"]⟩ ⟨0, ⟨1⟩⟩) := by
  have four : (QueryValue.handle ⟨0, ⟨4⟩⟩).Within 0 Heap.knotHeap :=
    QueryValue.within_handle ⟨rfl, Heap.has_knot (by decide)⟩
  have answer : knotLibrary.invoke knotSession "getDominator" [.handle ⟨0, ⟨4⟩⟩] =
      .ok (.handle ⟨0, ⟨3⟩⟩) := by
    have found : Function.find? "getDominator" = some .dominator := by decide
    rw [Library.invoke, found]
    change (Task.obtainDominator.on ⟨4⟩ (Heap.knotHeap.store.dominator ⟨4⟩) >>= fun o =>
      .ok (QueryValue.ofHandle? (o.map (Handle.sibling ⟨0, ⟨4⟩⟩)))) = _
    rw [Heap.dominator_knot]
    rfl
  have stays := queries_stay_within Heap.ofSnapshot_knot (l := knotLibrary)
    (rfl : knotSession.storeAt 0 = .ok Heap.knotHeap.store) rfl
  have called := stays.1 "getDominator" [.handle ⟨0, ⟨4⟩⟩] (by simpa using four)
  rw [answer] at called
  exact ⟨answer, called, stays.2 _ _ ⟨rfl, Heap.has_knot (by decide)⟩⟩

end HeapLens
