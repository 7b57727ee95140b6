import HeapLens.Proofs.Store.Requests
import HeapLens.Store.ClassChain

set_option autoImplicit false

namespace HeapLens.Heap

variable {h : Heap} {id p : NodeId} {met : Finset Nat}

def Extends (h : Heap) (id p : NodeId) : Prop :=
  ∃ r, h.Holds id r ∧ r.shape.superclass? = some p

structure PassedTo (h : Heap) (met : Finset Nat) (id : NodeId) : Prop where
  exist : ∀ v ∈ met, v < h.size
  lead : ∀ v ∈ met, Relation.TransGen (Hierarchy.Step (parentIndex h.records)) v id.index

theorem Extends.step (edge : h.Extends id p) :
    Hierarchy.Step (parentIndex h.records) id.index p.index := by
  obtain ⟨r, held, given⟩ := edge
  exact step_parentIndex_iff.mpr ⟨r, p, held, given, rfl⟩

namespace PassedTo

theorem fresh (passed : h.PassedTo met id) (sound : h.Sound) (has : h.Has id) :
    id.index ∉ met :=
  fun mem => (sound.chains_end id has).not_onCycle (passed.lead id.index mem)

theorem card_lt (passed : h.PassedTo met id) (sound : h.Sound) (has : h.Has id) :
    met.card < h.size := by
  have inside : insert id.index met ⊆ Finset.range h.size := by
    intro v hv
    rcases Finset.mem_insert.mp hv with rfl | old
    · exact Finset.mem_range.mpr has
    · exact Finset.mem_range.mpr (passed.exist v old)
  have count := Finset.card_le_card inside
  rw [Finset.card_insert_of_notMem (passed.fresh sound has), Finset.card_range] at count
  omega

theorem next (passed : h.PassedTo met id) (has : h.Has id) (edge : h.Extends id p) :
    h.PassedTo (insert id.index met) p where
  exist v hv := by
    rcases Finset.mem_insert.mp hv with rfl | old
    · exact has
    · exact passed.exist v old
  lead v hv := by
    rcases Finset.mem_insert.mp hv with rfl | old
    · exact .single edge.step
    · exact (passed.lead v old).tail edge.step

end PassedTo

namespace Sound

/-- A chain that has passed some nodes may go on for as many steps as there are others. -/
theorem chainFrom_succeeds (sound : h.Sound) {steps : Nat} (isClass : h.HasClass id)
    (passed : h.PassedTo met id) (enough : h.size ≤ steps + met.card) :
    ∀ level ∈ h.store.chainFrom steps id, Succeeds h.HasClass level := by
  induction steps generalizing id met with
  | zero =>
    have few := passed.card_lt sound isClass.has
    omega
  | succ steps ih =>
    obtain ⟨r, held, kind⟩ := isClass
    have told : h.store.superclass id = .ok r.shape.superclass? :=
      classAnswer_of_holds held kind (·.shape.superclass?)
    have here : Succeeds h.HasClass (.ok id : Except Fault NodeId) := ⟨r, held, kind⟩
    cases given : r.shape.superclass? with
    | none =>
      rw [given] at told
      simp only [Store.chainFrom, told, List.mem_singleton]
      rintro level rfl
      exact here
    | some p =>
      rw [given] at told
      simp only [Store.chainFrom, told, List.mem_cons]
      rintro level (rfl | mem)
      · exact here
      · have count := Finset.card_insert_of_notMem (passed.fresh sound held.has)
        exact ih (sound.superclass_isClass id r p held given)
          (passed.next held.has ⟨r, held, given⟩) (by omega) level mem

theorem classChain_succeeds (sound : h.Sound) (isClass : h.HasClass id) :
    ∀ level ∈ h.store.classChain id, Succeeds h.HasClass level := by
  unfold Store.classChain
  have nothing : h.PassedTo ∅ id :=
    ⟨fun v mem => absurd mem (Finset.notMem_empty v), fun v mem => absurd mem (Finset.notMem_empty v)⟩
  exact sound.chainFrom_succeeds isClass nothing (Nat.le_refl _)

end Sound

end HeapLens.Heap
