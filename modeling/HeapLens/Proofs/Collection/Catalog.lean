import HeapLens.Collection.Catalog
import HeapLens.Proofs.Collection.Reading
import HeapLens.Proofs.Store.ClassChain

set_option autoImplicit false

namespace HeapLens

def SizeFault (fault : Fault) : Prop :=
  fault = .corrupt .missingSize ∨ fault = .corrupt .badSize ∨ fault = .corrupt .missingMap

/-- Whether a strategy tells sizes, and fails in a heap only for the contents of a collection. -/
structure Strategy.Reliable (strategy : Strategy) : Prop where
  hasSize : strategy.hasSize = true
  size : ∀ h : Heap, h.Sound → ∀ node, h.Has node →
    Outcome (fun _ => True) SizeFault (strategy.size h.store node)
  entries : strategy.form = .map → ∀ h : Heap, h.Sound → ∀ node, h.Has node →
    Succeeds (fun w => ∀ item ∈ w.toList, h.GoodEntry item) (strategy.entries h.store node)

def Catalog.Reliable (c : Catalog) : Prop := ∀ e ∈ c.entries, e.2.Reliable

namespace Heap.Sound

variable {h : Heap} {node : NodeId}

theorem size_fault (sound : h.Sound) (has : h.Has node) (name : String) :
    Outcome (fun _ => True) SizeFault (h.store.readSize node name) := by
  refine (sound.readSize_outcome has name).mono (fun _ => id) fun fault cause => ?_
  rcases cause with missing | bad
  · exact .inl missing
  · exact .inr (.inl bad)

theorem tableEntries_succeed (sound : h.Sound) (has : h.Has node) (tableField : String) :
    Succeeds (fun w => ∀ item ∈ w.toList, h.GoodEntry item)
      (Strategy.tableEntries tableField h.store node) := by
  unfold Strategy.tableEntries
  exact (sound.readRef_succeeds has tableField).bind fun table exists_table =>
    sound.buckets_succeed exists_table

theorem backingMap_outcome (sound : h.Sound) (has : h.Has node) (mapField : String) :
    Outcome h.Has SizeFault (Strategy.backingMap mapField h.store node) := by
  unfold Strategy.backingMap
  refine (sound.readRef_succeeds has mapField).outcome.bind fun map exists_map => ?_
  cases map with
  | none => exact .inr (.inr rfl)
  | some m => exact exists_map m rfl

end Heap.Sound

namespace Strategy

theorem reliable_countedArray (sizeField arrayField : String) :
    (countedArray sizeField arrayField).Reliable where
  hasSize := rfl
  size _ sound _ has := sound.size_fault has sizeField
  entries form := by cases form

theorem reliable_hashTable (sizeField tableField : String) :
    (hashTable sizeField tableField).Reliable where
  hasSize := rfl
  size _ sound _ has := sound.size_fault has sizeField
  entries _ _ sound _ has := sound.tableEntries_succeed has tableField

theorem reliable_keySet (mapField sizeField tableField : String) :
    (keySet mapField sizeField tableField).Reliable where
  hasSize := rfl
  size _ sound _ has := (sound.backingMap_outcome has mapField).bind fun map has_map =>
    sound.size_fault has_map sizeField
  entries form := by cases form

end Strategy

namespace Catalog

theorem reliable_empty : empty.Reliable := by
  intro e mem
  cases mem

theorem Reliable.register {c : Catalog} (reliable : c.Reliable) (className : String)
    {strategy : Strategy} (added : strategy.Reliable) :
    (c.register className strategy).Reliable := by
  intro e mem
  rcases List.mem_cons.mp mem with rfl | old
  · exact added
  · exact reliable e (List.mem_filter.mp old).1

theorem reliable_builtin : builtin.Reliable := by
  unfold builtin
  repeat' apply Reliable.register
  · exact reliable_empty
  · exact Strategy.reliable_countedArray _ _
  · exact Strategy.reliable_countedArray _ _
  · exact Strategy.reliable_hashTable _ _
  · exact Strategy.reliable_hashTable _ _
  · exact Strategy.reliable_hashTable _ _
  · exact Strategy.reliable_hashTable _ _
  · exact Strategy.reliable_keySet _ _ _
  · exact Strategy.reliable_keySet _ _ _

variable {c : Catalog} {h : Heap} {node : NodeId}

theorem Reliable.lookup (reliable : c.Reliable) {className : String} {strategy : Strategy}
    (found : c.lookup className = some strategy) : strategy.Reliable := by
  obtain ⟨before, after, eq, _⟩ := List.lookup_eq_some_iff.mp found
  refine reliable (className, strategy) ?_
  rw [eq]
  exact List.mem_append_right before List.mem_cons_self

theorem Reliable.findIn (reliable : c.Reliable) {levels : List (Except Fault NodeId)}
    (classes : ∀ level ∈ levels, Succeeds h.HasClass level) :
    Succeeds (fun o => ∀ strategy, o = some strategy → strategy.Reliable)
      (c.findIn h.store levels) := by
  induction levels with
  | nil =>
    intro strategy eq
    cases eq
  | cons level rest ih =>
    obtain ⟨classId, rfl, isClass⟩ := (classes level List.mem_cons_self).exists_eq
    obtain ⟨name, told, _⟩ := (Heap.className_succeeds isClass).exists_eq
    rw [Catalog.findIn, told]
    dsimp only
    cases found : c.lookup name with
    | none => exact ih fun level mem => classes level (List.mem_cons_of_mem _ mem)
    | some strategy =>
      intro strategy' eq
      obtain rfl := Option.some.inj eq
      exact reliable.lookup found

theorem Reliable.strategyOf (reliable : c.Reliable) (sound : h.Sound) (has : h.Has node) :
    Succeeds (fun o => ∀ strategy, o = some strategy → strategy.Reliable)
      (c.strategyOf h.store node) := by
  unfold Catalog.strategyOf
  by_cases nothing : c.entries.isEmpty
  · rw [if_pos nothing]
    intro strategy eq
    cases eq
  · rw [if_neg nothing]
    obtain ⟨classId, told, isClass⟩ := (sound.classOf_succeeds has).exists_eq
    rw [told]
    exact reliable.findIn (sound.classChain_succeeds isClass)

end Catalog

end HeapLens
