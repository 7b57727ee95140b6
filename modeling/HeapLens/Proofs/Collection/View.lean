import HeapLens.Collection.View
import HeapLens.Proofs.Collection.Catalog
import HeapLens.Proofs.Query.Content

set_option autoImplicit false

namespace HeapLens

def SizeError (e : QueryError) : Prop :=
  ∃ task node fault, SizeFault fault ∧ e = .store task node fault

def EntryError (e : QueryError) : Prop :=
  (∃ task node, e = .store task node (.corrupt .cyclicBuckets)) ∨ UnsupportedError e

namespace Walk

variable {ε α β : Type}

theorem foldM_succeeds {f : β → α → Except ε β} {w : Walk α}
    (hf : ∀ b, ∀ a ∈ w.toList, Succeeds (fun _ => True) (f b a)) (b : β) :
    Succeeds (fun _ => True) (w.foldM f b) := by
  induction w generalizing b with
  | done => trivial
  | item a rest ih =>
    obtain ⟨b', eq, _⟩ := (hf b a List.mem_cons_self).exists_eq
    rw [foldM, eq]
    exact ih () (fun b a mem => hf b a (List.mem_cons_of_mem _ mem)) b'

theorem exists_of_firstAnswer {f : α → Option β} {w : Walk α} {b : β}
    (answer : w.firstAnswer f = some b) : ∃ a ∈ w.toList, f a = some b := by
  rw [firstAnswer_eq] at answer
  exact List.exists_of_findSome?_eq_some answer

end Walk

/-- A search that an error ends is as good as each of the tests that it makes. -/
theorem Walk.search_outcome {α : Type} {p : QueryValue → Prop} {q : QueryError → Prop}
    {f : α → Except QueryError (Option QueryValue)} {w : Walk α} (nothing : p .null)
    (tests : ∀ a ∈ w.toList, Outcome (fun o => ∀ v, o = some v → p v) q (f a)) :
    Outcome p q
      ((w.firstAnswer fun a =>
          match f a with
          | .error e => some (.error e)
          | .ok (some v) => some (.ok v)
          | .ok none => none).getD (.ok .null)) := by
  cases found : w.firstAnswer _ with
  | none => exact nothing
  | some answer =>
    obtain ⟨a, mem, eq⟩ := exists_of_firstAnswer found
    have outcome := tests a mem
    cases tested : f a with
    | error e =>
      rw [tested] at eq outcome
      obtain rfl := Option.some.inj eq
      exact outcome
    | ok o =>
      rw [tested] at eq outcome
      cases o with
      | none => cases eq
      | some v =>
        obtain rfl := Option.some.inj eq
        exact outcome v rfl

variable {c : Catalog} {session : Session} {place : Nat} {h : Heap} {x : Handle} {node : NodeId}

theorem Heap.Sound.liveSlots_succeeds (sound : h.Sound) (has : h.Has node) :
    Succeeds (fun _ => True) (Catalog.liveSlots h.store node) := by
  unfold Catalog.liveSlots
  have exist : ∀ a, some node = some a → h.Has a := by
    intro a eq
    obtain rfl := Option.some.inj eq
    exact has
  refine ((sound.slots_succeed exist).on _ _).bind fun slots there => ?_
  refine Walk.foldM_succeeds (fun live slot mem => ?_) 0
  exact ((there slot mem).on _ _).bind fun cell _ => trivial

theorem Heap.Sound.sizeWithout_succeeds (sound : h.Sound) (has : h.Has node) :
    Succeeds (fun _ => True) (Catalog.sizeWithout h.store node) := by
  unfold Catalog.sizeWithout
  refine ((Heap.kind_succeeds has).on _ _).bind fun kind _ => ?_
  by_cases array : kind = .array
  · rw [if_pos array]
    exact (sound.liveSlots_succeeds has).bind fun _ _ => trivial
  · rw [if_neg array]
    trivial

namespace Session.Opens

theorem sizeOf_outcome (opens : session.Opens place h) (reliable : c.Reliable)
    (within : x.Within place h) :
    Outcome (fun _ => True) SizeError (c.sizeOf session x) := by
  unfold Catalog.sizeOf
  refine ((opens.storeOf_succeeds within).on _ _).bind ?_
  rintro store rfl
  refine ((reliable.strategyOf opens.sound within.has).on _ _).bind fun o reliable_o => ?_
  cases o with
  | none => exact (opens.sound.sizeWithout_succeeds within.has).outcome
  | some strategy =>
    have good := reliable_o strategy rfl
    dsimp only
    rw [if_pos good.hasSize]
    have told : Outcome (fun _ => True) SizeError
        (Task.obtainSize.on x.node (strategy.size h.store x.node)) :=
      (good.size h opens.sound x.node within.has).on _ _ fun fault cause =>
        ⟨_, _, fault, cause, rfl⟩
    exact told.bind fun _ _ => trivial

theorem map?_succeeds (opens : session.Opens place h) (reliable : c.Reliable)
    (within : x.Within place h) :
    Succeeds (fun o => ∀ view : MapView, o = some view → view.owner = x ∧ view.store = h.store ∧
      view.strategy.Reliable ∧ view.strategy.form = .map) (c.map? session x) := by
  unfold Catalog.map?
  refine ((opens.storeOf_succeeds within).on _ _).bind ?_
  rintro store rfl
  refine ((reliable.strategyOf opens.sound within.has).on _ _).bind fun o reliable_o => ?_
  cases o with
  | none =>
    intro view eq
    cases eq
  | some strategy =>
    intro view eq
    by_cases form : strategy.form = .map
    · rw [if_pos form] at eq
      obtain rfl := Option.some.inj eq
      exact ⟨rfl, rfl, reliable_o strategy rfl, form⟩
    · rw [if_neg form] at eq
      cases eq

theorem matchEntry_outcome (opens : session.Opens place h) {view : MapView}
    (within : view.owner.Within place h) (key : String) {item : Except Fault (Cell × Cell)}
    (good : h.GoodEntry item) :
    Outcome (fun o => ∀ v, o = some v → v.Within place h) EntryError
      (Catalog.matchEntry session view key item) := by
  unfold Catalog.matchEntry
  have entry : Outcome (fun pair => h.HasTarget pair.1 ∧ h.HasTarget pair.2) EntryError
      (Task.readEntry.on view.owner.node item) :=
    Outcome.on good _ _ fun fault cause => .inl ⟨_, _, congrArg _ cause⟩
  refine entry.bind ?_
  rintro ⟨keyCell, valueCell⟩ ⟨key_target, value_target⟩
  have value {c : Cell} (target : h.HasTarget c) :
      Outcome (fun v => v.Within place h) EntryError (QueryValue.ofCell view.owner c) :=
    (QueryValue.ofCell_outcome within target).mono (fun _ => id) fun _ => Or.inr
  refine (value key_target).bind fun keyValue within_key => ?_
  refine (opens.displayText_succeeds within_key).outcome.bind fun text _ => ?_
  by_cases same : text = some key
  · rw [if_pos same]
    refine (value value_target).map some fun v within_v v' eq => ?_
    obtain rfl := Option.some.inj eq
    exact within_v
  · rw [if_neg same]
    intro v eq
    cases eq

theorem valueAt_outcome (opens : session.Opens place h) (reliable : c.Reliable)
    (within : x.Within place h) (key : String) :
    Outcome (fun v => v.Within place h) EntryError (c.valueAt session x key) := by
  unfold Catalog.valueAt
  refine (opens.map?_succeeds reliable within).outcome.bind fun o views => ?_
  cases o with
  | none => exact QueryValue.within_of_handle?_eq_none rfl
  | some view =>
    obtain ⟨rfl, store_eq, good, form⟩ := views view rfl
    have cells : Outcome (fun w => ∀ item ∈ w.toList, h.GoodEntry item) EntryError view.cells := by
      unfold MapView.cells
      rw [store_eq]
      exact (good.entries form h opens.sound _ within.has).on _ _
    refine cells.bind fun w items => ?_
    refine Walk.search_outcome (p := fun v : QueryValue => v.Within place h)
      (f := Catalog.matchEntry session view key) ?_ fun item mem => ?_
    · exact QueryValue.within_of_handle?_eq_none rfl
    · exact opens.matchEntry_outcome within key (items item mem)

end Session.Opens

end HeapLens
