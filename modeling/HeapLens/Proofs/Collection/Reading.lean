import HeapLens.Collection.Strategy
import HeapLens.Proofs.Store.Requests

set_option autoImplicit false

namespace HeapLens.Heap

def GoodEntry (h : Heap) (item : Except Fault (Cell × Cell)) : Prop :=
  Outcome (fun pair => h.HasTarget pair.1 ∧ h.HasTarget pair.2)
    (fun fault => fault = .corrupt .cyclicBuckets) item

def HasSlots (h : Heap) (array : Option NodeId) (length : Nat) : Prop :=
  ∀ i < length, Succeeds h.HasTarget (h.store.slot (array.getD (.ofIndex 0)) i)

variable {h : Heap} {node : NodeId} {array : Option NodeId}

theorem hasTarget_null (h : Heap) : h.HasTarget .null := by
  intro w eq
  cases eq

theorem hasTarget_getD {o : Option Cell} (targets : ∀ c, o = some c → h.HasTarget c) :
    h.HasTarget (o.getD .null) := by
  cases o with
  | none => exact hasTarget_null h
  | some c => exact targets c rfl

theorem cyclicEnd_good : ∀ item ∈ Store.cyclicEnd.toList, h.GoodEntry item := by
  intro item mem
  obtain rfl := List.mem_singleton.mp mem
  exact rfl

theorem slotsFrom_succeed {a : NodeId} {count i : Nat}
    (there : ∀ j, i ≤ j → j < i + count → Succeeds h.HasTarget (h.store.slot a j)) :
    ∀ item ∈ (h.store.slotsFrom a count i).toList, Succeeds h.HasTarget item := by
  induction count generalizing i with
  | zero =>
    intro item mem
    cases mem
  | succ count ih =>
    intro item mem
    rcases List.mem_cons.mp mem with rfl | later
    · exact there i (Nat.le_refl i) (by omega)
    · exact ih (fun j low high => there j (by omega) (by omega)) item later

namespace Sound

theorem readRef_succeeds (sound : h.Sound) (has : h.Has node) (name : String) :
    Succeeds (fun o => ∀ w, o = some w → h.Has w) (h.store.readRef node name) := by
  unfold Store.readRef
  refine (sound.readField_succeeds has name).bind fun o targets w eq => ?_
  obtain ⟨c, found, ref⟩ := Option.bind_eq_some_iff.mp eq
  have cell_eq : c = .ref w := by
    cases c <;> simp_all [Cell.ref?]
  exact targets c found w cell_eq

theorem readSize_outcome (sound : h.Sound) (has : h.Has node) (name : String) :
    Outcome (fun _ => True)
      (fun fault => fault = .corrupt .missingSize ∨ fault = .corrupt .badSize)
      (h.store.readSize node name) := by
  unfold Store.readSize
  refine (sound.readField_succeeds has name).outcome.bind fun o _ => ?_
  cases o with
  | none => exact .inl rfl
  | some c =>
    dsimp only
    cases c.int64? with
    | none => exact .inr rfl
    | some n =>
      dsimp only
      by_cases range : 0 ≤ n.toInt ∧ n.toInt < UInt32.size
      · rw [if_pos range]
        trivial
      · rw [if_neg range]
        exact .inr rfl

theorem lengthOf_succeeds (sound : h.Sound) (has : ∀ a, array = some a → h.Has a) :
    Succeeds (h.HasSlots array) (h.store.lengthOf array) := by
  cases array with
  | none => exact fun i low => absurd low (Nat.not_lt_zero i)
  | some a =>
    refine (arrayLength_succeeds (has a rfl)).bind fun o there i low => ?_
    cases o with
    | none => exact absurd low (Nat.not_lt_zero i)
    | some n =>
      obtain ⟨c, told⟩ := there n rfl i low
      have targets := sound.element_succeeds (has a rfl) (UInt32.ofNat i)
      rw [told] at targets
      rw [Option.getD_some, Store.slot, told]
      exact targets c rfl

theorem slots_succeed (sound : h.Sound) (has : ∀ a, array = some a → h.Has a) :
    Succeeds (fun w => ∀ item ∈ w.toList, Succeeds h.HasTarget item) (h.store.slots array) := by
  refine (sound.lengthOf_succeeds has).bind fun length there => ?_
  exact slotsFrom_succeed fun j _ high => there j (by omega)

theorem readEntry_succeeds (sound : h.Sound) (has : h.Has node) :
    Succeeds (fun entry => (h.HasTarget entry.1.1 ∧ h.HasTarget entry.1.2) ∧
      ∀ w, entry.2 = some w → h.Has w) (h.store.readEntry node) := by
  unfold Store.readEntry
  refine (sound.readField_succeeds has _).bind fun key key_targets => ?_
  refine (sound.readField_succeeds has _).bind fun value value_targets => ?_
  refine (sound.readField_succeeds has _).bind fun val val_targets => ?_
  refine (sound.readRef_succeeds has _).bind fun next exists_next => ?_
  refine ⟨⟨hasTarget_getD key_targets, hasTarget_getD fun c eq => ?_⟩, exists_next⟩
  cases value with
  | none => exact val_targets c eq
  | some c' => exact value_targets c eq

/-- A chain of entries yields entries until it ends or comes back. -/
theorem chainEntries_good (sound : h.Sound) {after : Trace → Store.Entries}
    (later : ∀ seen, ∀ item ∈ (after seen).toList, h.GoodEntry item) (seen : Trace)
    (has : h.Has node) :
    ∀ item ∈ (h.store.chainEntries after seen node).toList, h.GoodEntry item := by
  fun_induction Store.chainEntries h.store after seen node with
  | case1 seen node fresh fault read =>
    have there := sound.readEntry_succeeds has
    rw [read] at there
    exact absurd there id
  | case2 seen node fresh pair read =>
    have there := sound.readEntry_succeeds has
    rw [read] at there
    intro item here
    rcases List.mem_cons.mp here with rfl | rest
    · exact there.1
    · exact later _ item rest
  | case3 seen node fresh pair next read ih =>
    have there := sound.readEntry_succeeds has
    rw [read] at there
    intro item here
    rcases List.mem_cons.mp here with rfl | rest
    · exact there.1
    · exact ih (there.2 next rfl) item rest
  | case4 => exact cyclicEnd_good

theorem bucketsFrom_good (sound : h.Sound) {table : NodeId} {count i : Nat} {seen : Trace}
    (there : ∀ j, i ≤ j → j < i + count → Succeeds h.HasTarget (h.store.slot table j)) :
    ∀ item ∈ (h.store.bucketsFrom table count i seen).toList, h.GoodEntry item := by
  induction count generalizing i seen with
  | zero =>
    intro item mem
    cases mem
  | succ count ih =>
    have rest (seen : Trace) :
        ∀ item ∈ (h.store.bucketsFrom table count (i + 1) seen).toList, h.GoodEntry item :=
      ih fun j low high => there j (by omega) (by omega)
    obtain ⟨c, read, target⟩ := (there i (Nat.le_refl i) (by omega)).exists_eq
    rw [Store.bucketsFrom, read]
    cases c with
    | ref first => exact sound.chainEntries_good rest seen (target first rfl)
    | _ => exact rest seen

theorem buckets_succeed (sound : h.Sound) (has : ∀ t, array = some t → h.Has t) :
    Succeeds (fun w => ∀ item ∈ w.toList, h.GoodEntry item) (h.store.buckets array) := by
  refine (sound.lengthOf_succeeds has).bind fun length there => ?_
  exact sound.bucketsFrom_good fun j _ high => there j (by omega)

end Sound

end HeapLens.Heap
