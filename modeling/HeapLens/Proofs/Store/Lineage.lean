import HeapLens.Proofs.Store.ClassChain
import HeapLens.Proofs.Store.Contents

set_option autoImplicit false

namespace HeapLens.Heap

inductive Lineage (h : Heap) : NodeId → List NodeId → Prop
  | root {c : NodeId} {name : String} {loader : Option NodeId} {statics : List Field} :
    h.shape? c = some (.classNode name none loader statics) → Lineage h c [c]
  | derived {c p : NodeId} {name : String} {loader : Option NodeId} {statics : List Field}
      {rest : List NodeId} :
    h.shape? c = some (.classNode name (some p) loader statics) → Lineage h p rest →
      Lineage h c (c :: rest)

variable {h : Heap} {c : NodeId} {chain : List NodeId}

namespace Lineage

theorem hasClass (lineage : h.Lineage c chain) : ∀ d ∈ chain, h.HasClass d := by
  induction lineage with
  | root shape =>
    intro d mem
    obtain rfl := List.mem_singleton.mp mem
    exact hasClass_iff.mpr ⟨_, _, _, _, shape⟩
  | derived shape _ ih =>
    intro d mem
    rcases List.mem_cons.mp mem with rfl | above
    · exact hasClass_iff.mpr ⟨_, _, _, _, shape⟩
    · exact ih d above

theorem mem (lineage : h.Lineage c chain) : c ∈ chain := by
  cases lineage <;> exact List.mem_cons_self

theorem unique {chain' : List NodeId} (lineage : h.Lineage c chain)
    (lineage' : h.Lineage c chain') : chain = chain' := by
  induction lineage generalizing chain' with
  | root shape => cases lineage' <;> simp_all
  | derived shape _ ih =>
    cases lineage' with
    | root shape' => simp_all
    | derived shape' above' =>
      obtain ⟨rfl, rfl, rfl, rfl⟩ : _ ∧ _ ∧ _ ∧ _ := by simpa [shape] using shape'
      rw [ih above']

end Lineage

theorem superclass_eq {name : String} {superclass loader : Option NodeId} {statics : List Field}
    (shape : h.shape? c = some (.classNode name superclass loader statics)) :
    h.store.superclass c = .ok superclass := by
  obtain ⟨r, held, shape_eq⟩ := Option.map_eq_some_iff.mp shape
  have kind : r.kind = .classNode := by simp [Record.kind, shape_eq, Shape.kind]
  have told : h.store.superclass c = .ok r.shape.superclass? := classAnswer_of_holds held kind _
  rw [told, shape_eq]
  rfl

namespace Sound

theorem hasClass_superclass (sound : h.Sound) {name : String} {p : NodeId} {loader : Option NodeId}
    {statics : List Field}
    (shape : h.shape? c = some (.classNode name (some p) loader statics)) : h.HasClass p := by
  obtain ⟨r, held, shape_eq⟩ := Option.map_eq_some_iff.mp shape
  exact sound.superclass_isClass c r p held (by rw [shape_eq]; rfl)

/-- A chain without a fault is the lineage of its first class. -/
theorem exists_lineage_of_chainFrom (sound : h.Sound) {steps : Nat} (isClass : h.HasClass c)
    (whole : ∀ level ∈ h.store.chainFrom steps c, Succeeds h.HasClass level) :
    ∃ chain, h.Lineage c chain ∧ h.store.chainFrom steps c = chain.map .ok := by
  induction steps generalizing c with
  | zero => exact (whole _ (List.mem_singleton.mpr rfl)).elim
  | succ steps ih =>
    obtain ⟨name, superclass, loader, statics, shape⟩ := hasClass_iff.mp isClass
    cases superclass with
    | none => exact ⟨[c], .root shape, by rw [Store.chainFrom, superclass_eq shape]; rfl⟩
    | some p =>
      have chain_eq : h.store.chainFrom (steps + 1) c = .ok c :: h.store.chainFrom steps p := by
        rw [Store.chainFrom, superclass_eq shape]
      rw [chain_eq] at whole ⊢
      obtain ⟨rest, lineage, eq⟩ := ih (sound.hasClass_superclass shape)
        fun level mem => whole level (List.mem_cons_of_mem _ mem)
      exact ⟨c :: rest, .derived shape lineage, by rw [eq]; rfl⟩

theorem exists_lineage (sound : h.Sound) (isClass : h.HasClass c) :
    ∃ chain, h.Lineage c chain ∧ h.store.classChain c = chain.map .ok :=
  sound.exists_lineage_of_chainFrom isClass (sound.classChain_succeeds isClass)

theorem classChain_eq (sound : h.Sound) (lineage : h.Lineage c chain) :
    h.store.classChain c = chain.map .ok := by
  obtain ⟨chain', lineage', eq⟩ := sound.exists_lineage (lineage.hasClass c lineage.mem)
  rw [eq, lineage.unique lineage']

end Sound

end HeapLens.Heap
