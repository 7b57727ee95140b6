import HeapLens.Proofs.Query.Content
import HeapLens.Proofs.Store.ClassChain
import HeapLens.Query.Path

set_option autoImplicit false

namespace HeapLens

def StepError (e : QueryError) : Prop :=
  (∃ field className, e = .fieldNotFound field className) ∨ UnsupportedError e

/-- Whether an error is one of those of a path. -/
def PathError (e : QueryError) : Prop :=
  StepError e ∨ ∃ step found, e = .notNavigable step found

variable {session : Session} {place : Nat} {h : Heap} {x : Handle} {node : NodeId}

namespace Attribute

theorem appliesTo_of_findFor? {name : String} {kind : Kind} {a : Attribute}
    (found : findFor? name kind = some a) : a.isClassOnly = true → kind = .classNode := by
  have applies := (Option.filter_eq_some_iff.mp found).2
  intro classOnly
  rw [appliesTo, classOnly] at applies
  exact of_decide_eq_true applies

end Attribute

namespace Heap.Sound

theorem findAlong_succeeds (sound : h.Sound) {fields : List Field}
    (targets : ∀ f ∈ fields, h.HasTarget f.cell) (own : NodeId) (name : String)
    {levels : List (Except Fault NodeId)}
    (classes : ∀ level ∈ levels, Succeeds h.HasClass level) :
    Succeeds (fun o => ∀ c, o = some c → h.HasTarget c)
      (h.store.findAlong fields own name levels) := by
  induction levels with
  | nil =>
    intro c eq
    cases eq
  | cons level rest ih =>
    rw [Store.findAlong]
    refine ((classes level List.mem_cons_self).on _ _).bind fun classId isClass => ?_
    cases declared : Store.declaredField? fields own classId name with
    | some field =>
      intro c eq
      obtain rfl := Option.some.inj eq
      exact targets field (List.mem_of_find?_eq_some declared)
    | none =>
      refine ((sound.staticFields_succeeds isClass).on _ _).bind fun statics static_targets => ?_
      cases found : statics.find? (·.name = name) with
      | some field =>
        intro c eq
        obtain rfl := Option.some.inj eq
        exact static_targets field (List.mem_of_find?_eq_some found)
      | none => exact ih fun level mem => classes level (List.mem_cons_of_mem _ mem)

theorem ownClass_succeeds (sound : h.Sound) (has : h.Has node) :
    Succeeds h.HasClass (h.store.ownClass node) := by
  unfold Store.ownClass
  refine (kind_succeeds has).bind fun kind isClass => ?_
  by_cases eq : kind = .classNode
  · rw [if_pos eq]
    exact isClass eq
  · rw [if_neg eq]
    exact sound.classOf_succeeds has

theorem findCell_outcome (sound : h.Sound) (has : h.Has node) (name : String) :
    Outcome h.HasTarget (fun e => ∃ field className, e = .fieldNotFound field className)
      (h.store.findCell node name) := by
  unfold Store.findCell
  refine ((sound.objectFields_succeeds has).on _ _).bind fun fields targets => ?_
  refine ((sound.ownClass_succeeds has).on _ _).bind fun own isClass => ?_
  have along := sound.findAlong_succeeds targets own name (sound.classChain_succeeds isClass)
  refine along.outcome.bind fun o found_targets => ?_
  cases o with
  | some c => exact found_targets c rfl
  | none =>
    dsimp only
    cases found : fields.find? (·.name = name) with
    | some field => exact targets field (List.mem_of_find?_eq_some found)
    | none =>
      refine ((className_succeeds isClass).on _ _).bind fun className _ => ?_
      exact ⟨_, _, rfl⟩

end Heap.Sound

namespace Session.Opens

/-- Every attribute that a node has is computed, and leads to nodes of the heap. -/
theorem attribute_succeeds (opens : session.Opens place h) (within : x.Within place h)
    {a : Attribute} (applies : a.isClassOnly = true → h.HasClass x.node) :
    Succeeds (fun v => v.Within place h) (x.attribute session a) := by
  have other {v : QueryValue} (no_handle : v.handle? = none) : v.Within place h :=
    QueryValue.within_of_handle?_eq_none no_handle
  have found := opens.storeOf_succeeds within
  cases a with
  | size =>
    refine (found.on _ _).bind ?_
    rintro store rfl
    exact ((Heap.size_succeeds within.has).on _ _).bind fun bytes _ => other rfl
  | retainedSize =>
    refine (found.on _ _).bind ?_
    rintro store rfl
    exact ((opens.sound.retainedSize_succeeds within.has).on _ _).bind fun bytes _ => other rfl
  | className =>
    refine (found.on _ _).bind ?_
    rintro store rfl
    refine ((opens.sound.classOf_succeeds within.has).on _ _).bind fun classId isClass => ?_
    exact ((Heap.className_succeeds isClass).on _ _).bind fun name _ => other rfl
  | classOf =>
    refine (found.on _ _).bind ?_
    rintro store rfl
    refine ((opens.sound.classOf_succeeds within.has).on _ _).bind fun classId isClass => ?_
    exact QueryValue.within_handle (within.sibling isClass.has)
  | classLoader =>
    refine (found.on _ _).bind ?_
    rintro store rfl
    refine ((opens.sound.classLoader_succeeds (applies rfl)).on _ _).bind fun o exist => ?_
    exact QueryValue.within_ofHandle? within exist
  | superclass =>
    refine (found.on _ _).bind ?_
    rintro store rfl
    refine ((opens.sound.superclass_succeeds (applies rfl)).on _ _).bind fun o classes => ?_
    exact QueryValue.within_ofHandle? within fun w eq => (classes w eq).has

theorem followField_outcome (opens : session.Opens place h) (within : x.Within place h)
    (name : String) :
    Outcome (fun v => v.Within place h) StepError (x.followField h.store name) := by
  unfold Handle.followField
  have cell := opens.sound.findCell_outcome within.has name
  refine (cell.mono (fun _ => id) fun _ => Or.inl).bind fun c target => ?_
  exact (QueryValue.ofCell_outcome within target).mono (fun _ => id) fun _ => Or.inr

theorem follow_outcome (opens : session.Opens place h) (within : x.Within place h)
    (step : Step) : Outcome (fun v => v.Within place h) StepError (x.follow session step) := by
  unfold Handle.follow
  refine ((opens.storeOf_succeeds within).on _ _).bind ?_
  rintro store rfl
  rcases step with name | name
  · exact opens.followField_outcome within name
  · refine ((Heap.kind_succeeds within.has).on _ _).bind fun kind isClass => ?_
    cases found : Attribute.findFor? name kind with
    | none => exact opens.followField_outcome within name
    | some a =>
      have applies := Attribute.appliesTo_of_findFor? found
      exact (opens.attribute_succeeds within fun only => isClass (applies only)).outcome

theorem followAll_outcome (opens : session.Opens place h) (steps : List Step) {v : QueryValue}
    (within : v.Within place h) :
    Outcome (fun v => v.Within place h) PathError (Path.followAll session steps v) := by
  induction steps generalizing v with
  | nil =>
    cases v <;> exact within
  | cons step rest ih =>
    cases v with
    | null => exact within
    | handle x =>
      have next := opens.follow_outcome (within x rfl) step
      exact (next.mono (fun _ => id) fun _ => Or.inl).bind fun v within_v => ih within_v
    | _ => exact .inr ⟨_, _, rfl⟩

end Session.Opens

end HeapLens
