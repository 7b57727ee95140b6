import HeapLens.Proofs.Store.Lineage
import HeapLens.Store.Overlay

set_option autoImplicit false

namespace HeapLens.Store

/-- Whether the superclasses of a class lead to another one past the classes of a list. -/
inductive Climbs (s : Store) : NodeId → List NodeId → NodeId → Prop
  | here (c : NodeId) : Climbs s c [] c
  | up {c p d : NodeId} {passed : List NodeId} :
    s.superclass c = .ok (some p) → Climbs s p passed d → Climbs s c (c :: passed) d

/-- Why a chain goes no further. -/
inductive Halt where
  | top
  | refused (fault : Fault)
  | endless

def Halt.fault? : Halt → Option Fault
  | .top => none
  | .refused fault => some fault
  | .endless => some (.corrupt .endlessHierarchy)

/-- Whether the answers of a store let a chain come to its end behind the classes of a list. -/
inductive Halts (s : Store) (start : NodeId) : List NodeId → Halt → Prop
  | top {passed : List NodeId} {c : NodeId} : passed.length < s.nodeCount →
    s.Climbs start passed c → s.superclass c = .ok none → Halts s start (passed ++ [c]) .top
  | refused {passed : List NodeId} {c : NodeId} {fault : Fault} : passed.length < s.nodeCount →
    s.Climbs start passed c → s.superclass c = .error fault → Halts s start passed (.refused fault)
  | endless {passed : List NodeId} {c : NodeId} : passed.length = s.nodeCount →
    s.Climbs start passed c → Halts s start passed .endless

variable {s : Store} {start c d p : NodeId} {passed classes : List NodeId} {halt : Halt}

namespace Climbs

theorem next (climbs : s.Climbs start passed c) (edge : s.superclass c = .ok (some p)) :
    s.Climbs start (passed ++ [c]) p := by
  induction climbs with
  | here c => exact .up edge (.here p)
  | up first _ ih => exact .up first (ih edge)

theorem take (climbs : s.Climbs start passed c) (k : Nat) (at_k : passed[k]? = some d) :
    s.Climbs start (passed.take k) d := by
  induction climbs generalizing k with
  | here c => simp at at_k
  | up first _ ih =>
    cases k with
    | zero =>
      rw [List.getElem?_cons_zero, Option.some_inj] at at_k
      rw [List.take_zero, at_k]
      exact .here d
    | succ k =>
      rw [List.getElem?_cons_succ] at at_k
      exact .up first (ih k at_k)

theorem chainFrom (climbs : s.Climbs start passed c) (steps : Nat) :
    s.chainFrom (passed.length + steps) start = passed.map .ok ++ s.chainFrom steps c := by
  induction climbs with
  | here c => rw [List.length_nil, Nat.zero_add, List.map_nil, List.nil_append]
  | up first _ ih =>
    rw [List.length_cons, Nat.add_right_comm, Store.chainFrom, first, List.map_cons,
      List.cons_append, ← ih]

end Climbs

namespace Halts

theorem length_le (halts : s.Halts start classes halt) : classes.length ≤ s.nodeCount := by
  cases halts with
  | top few =>
    rw [List.length_append, List.length_singleton]
    exact few
  | refused few => exact few.le
  | endless all => exact all.le

theorem climbs (halts : s.Halts start classes halt) (k : Nat) (at_k : classes[k]? = some d) :
    s.Climbs start (classes.take k) d := by
  cases halts with
  | refused _ way => exact way.take k at_k
  | endless _ way => exact way.take k at_k
  | @top passed c _ way =>
    rcases Nat.lt_trichotomy k passed.length with before | last | beyond
    · rw [List.getElem?_append_left before] at at_k
      rw [List.take_append_of_le_length before.le]
      exact way.take k at_k
    · subst last
      rw [List.getElem?_concat_length, Option.some_inj] at at_k
      rw [List.take_left, ← at_k]
      exact way
    · rw [List.getElem?_eq_none (by simpa using Nat.succ_le_of_lt beyond)] at at_k
      cases at_k

theorem classChain_eq (halts : s.Halts start classes halt) :
    s.classChain start = classes.map .ok ++ halt.fault?.toList.map .error := by
  have unfolded {passed : List NodeId} {c : NodeId} (way : s.Climbs start passed c) (steps : Nat)
      (count : s.nodeCount = passed.length + steps) :
      s.classChain start = passed.map .ok ++ s.chainFrom steps c := by
    rw [classChain, count]
    exact way.chainFrom steps
  cases halts with
  | top few way last =>
    obtain ⟨steps, count⟩ := Nat.exists_eq_add_of_lt few
    rw [unfolded way (steps + 1) count, chainFrom, last]
    simp [Halt.fault?]
  | refused few way last =>
    obtain ⟨steps, count⟩ := Nat.exists_eq_add_of_lt few
    rw [unfolded way (steps + 1) count, chainFrom, last]
    rfl
  | endless all way => exact unfolded way 0 all.symm

theorem length_lt {fault : Fault} (halts : s.Halts start classes (.refused fault)) :
    classes.length < s.nodeCount := by
  cases halts with
  | refused few => exact few

theorem length_eq (halts : s.Halts start classes .endless) : classes.length = s.nodeCount := by
  cases halts with
  | endless all => exact all

theorem unique {classes' : List NodeId} {halt' : Halt} (halts : s.Halts start classes halt)
    (halts' : s.Halts start classes' halt') : classes' = classes ∧ halt' = halt := by
  have same := halts'.classChain_eq.symm.trans halts.classChain_eq
  obtain rfl : classes' = classes := by
    have told := congrArg (List.filterMap Except.toOption) same
    simpa [List.filterMap_append, List.filterMap_map, Function.comp_def, Except.toOption] using told
  refine ⟨rfl, ?_⟩
  have faults : halt'.fault? = halt.fault? := by
    have told := List.append_cancel_left same
    cases at_end : halt.fault? <;> cases at_end' : halt'.fault? <;> simp_all
  -- A store may refuse in the words of the guard, but it does so before the guard would.
  cases halt <;> cases halt' <;> simp only [Halt.fault?, Option.some_inj, reduceCtorEq] at faults
  case top.top => rfl
  case refused.refused => rw [faults]
  case refused.endless => exact absurd halts'.length_eq halts.length_lt.ne
  case endless.refused => exact absurd halts.length_eq halts'.length_lt.ne
  case endless.endless => rfl

theorem refused_iff {fault : Fault} (halts : s.Halts start classes halt) :
    halt = .refused fault ∧ classes = passed ↔ ∃ c, passed.length < s.nodeCount ∧
      s.Climbs start passed c ∧ s.superclass c = .error fault := by
  constructor
  · rintro ⟨rfl, rfl⟩
    cases halts with
    | refused few way last => exact ⟨_, few, way, last⟩
  · intro ⟨c, few, way, last⟩
    exact (halts.unique (.refused few way last)).symm.imp Eq.symm Eq.symm

theorem endless_iff (halts : s.Halts start classes halt) :
    halt = .endless ∧ classes = passed ↔
      ∃ c, passed.length = s.nodeCount ∧ s.Climbs start passed c := by
  constructor
  · rintro ⟨rfl, rfl⟩
    cases halts with
    | endless all way => exact ⟨_, all, way⟩
  · intro ⟨c, all, way⟩
    exact (halts.unique (.endless all way)).symm.imp Eq.symm Eq.symm

theorem top_iff (halts : s.Halts start classes halt) :
    halt = .top ∧ classes = passed ++ [c] ↔ passed.length < s.nodeCount ∧
      s.Climbs start passed c ∧ s.superclass c = .ok none := by
  constructor
  · rintro ⟨rfl, eq⟩
    cases halts with
    | top few way last =>
      obtain ⟨rfl, rfl⟩ := List.append_singleton_inj.mp eq
      exact ⟨few, way, last⟩
  · intro ⟨few, way, last⟩
    exact (halts.unique (.top few way last)).symm.imp Eq.symm Eq.symm

theorem length_classChain_le (halts : s.Halts start classes halt) :
    (s.classChain start).length ≤ s.nodeCount + 1 := by
  have faults : halt.fault?.toList.length ≤ 1 := by cases halt <;> simp [Halt.fault?]
  have few := halts.length_le
  rw [halts.classChain_eq, List.length_append, List.length_map, List.length_map]
  omega

end Halts

theorem halts_or_climbs (s : Store) (start : NodeId) {k : Nat} (low : k ≤ s.nodeCount) :
    (∃ classes halt, s.Halts start classes halt) ∨
      ∃ passed c, passed.length = k ∧ s.Climbs start passed c := by
  induction k with
  | zero => exact .inr ⟨[], start, rfl, .here start⟩
  | succ k ih =>
    rcases ih (Nat.le_of_succ_le low) with halts | ⟨passed, c, count, way⟩
    · exact .inl halts
    · have few : passed.length < s.nodeCount := count ▸ low
      cases told : s.superclass c with
      | error fault => exact .inl ⟨_, _, .refused few way told⟩
      | ok parent =>
        cases parent with
        | none => exact .inl ⟨_, _, .top few way told⟩
        | some p => exact .inr ⟨passed ++ [c], p, by simp [count], way.next told⟩

theorem exists_halts (s : Store) (start : NodeId) : ∃ classes halt, s.Halts start classes halt := by
  rcases s.halts_or_climbs start (Nat.le_refl _) with halts | ⟨passed, c, all, way⟩
  · exact halts
  · exact ⟨_, _, .endless all way⟩

/--
The chain of a class is the class and its successive superclasses, at most as many as there are
nodes, and behind them at most one fault. The fault is one of the store exactly if the store refuses
a superclass before that many classes have been passed, and says that the hierarchy is endless
exactly if that many can be passed; otherwise the last class has no superclass. On a heap there is
no fault, however long the chain is.
-/
theorem classChain_halts (s : Store) (start : NodeId) :
    (∃ (classes : List NodeId) (halt : Halt),
      s.classChain start = classes.map .ok ++ halt.fault?.toList.map .error ∧
      classes.length ≤ s.nodeCount ∧ (s.classChain start).length ≤ s.nodeCount + 1 ∧
      (∀ k d, classes[k]? = some d → s.Climbs start (classes.take k) d) ∧
      (∀ passed fault, halt = .refused fault ∧ classes = passed ↔ ∃ c,
        passed.length < s.nodeCount ∧ s.Climbs start passed c ∧ s.superclass c = .error fault) ∧
      (∀ passed, halt = .endless ∧ classes = passed ↔ ∃ c,
        passed.length = s.nodeCount ∧ s.Climbs start passed c) ∧
      ∀ passed c, halt = .top ∧ classes = passed ++ [c] ↔
        passed.length < s.nodeCount ∧ s.Climbs start passed c ∧ s.superclass c = .ok none) ∧
      Halt.endless.fault?.map Fault.message =
        some "corruption: superclass chain does not terminate" ∧
      ∀ snapshot h, Heap.ofSnapshot snapshot = .ok h → h.HasClass start →
        ∃ classes, h.Lineage start classes ∧ h.store.classChain start = classes.map .ok := by
  refine ⟨?_, by decide, fun snapshot h accepted isClass => ?_⟩
  · obtain ⟨classes, halt, halts⟩ := s.exists_halts start
    exact ⟨classes, halt, halts.classChain_eq, halts.length_le, halts.length_classChain_le,
      fun k d => halts.climbs k, fun passed fault => halts.refused_iff,
      fun passed => halts.endless_iff, fun passed c => halts.top_iff⟩
  · exact (Heap.sound_of_ofSnapshot accepted).exists_lineage isClass

def ladder : Snapshot where
  nodes :=
    [⟨.classNode "Base" none none [], none, none⟩,
      ⟨.classNode "Middle" (some ⟨0⟩) none [], none, none⟩,
      ⟨.classNode "Leaf" (some ⟨1⟩) none [], none, none⟩]
  roots := []

def ladderHeap : Heap := Heap.assemble (Heap.recordsOfSnapshot ladder) ladder.roots

def ladderLoop : Store := Overlay.applyTo ⟨[], [(⟨0⟩, some ⟨2⟩)], [], []⟩ ladderHeap.store

def ladderTorn : Store :=
  Overlay.applyTo ⟨[⟨.superclass, some ⟨0⟩, .closed⟩], [], [], []⟩ ladderHeap.store

/-- The longest chain that a heap can have passes all of its nodes; one that goes round is cut. -/
theorem classChain_ladder :
    Heap.ofSnapshot ladder = .ok ladderHeap ∧ ladderHeap.HasClass ⟨2⟩ ∧
      ladderHeap.store.nodeCount = 3 ∧
      ladderHeap.store.classChain ⟨2⟩ = [.ok ⟨2⟩, .ok ⟨1⟩, .ok ⟨0⟩] ∧
      ladderLoop.classChain ⟨2⟩ =
        [.ok ⟨2⟩, .ok ⟨1⟩, .ok ⟨0⟩, .error (.corrupt .endlessHierarchy)] ∧
      ladderTorn.classChain ⟨2⟩ = [.ok ⟨2⟩, .ok ⟨1⟩, .error .closed] := by
  have accepted : Heap.ofSnapshot ladder = .ok ladderHeap :=
    Heap.ofSnapshot_of_defect? (by decide +kernel)
  have leaf := Heap.shape?_of_describes accepted (n := ⟨2⟩) rfl
  have middle := Heap.shape?_of_describes accepted (n := ⟨1⟩) rfl
  have base := Heap.shape?_of_describes accepted (n := ⟨0⟩) rfl
  have isClass : ladderHeap.HasClass ⟨2⟩ := Heap.hasClass_iff.mpr ⟨_, _, _, _, leaf⟩
  refine ⟨accepted, isClass, rfl, ?_, ?_, ?_⟩
  · obtain ⟨classes, lineage, chain_eq⟩ :=
      (classChain_halts ladderHeap.store ⟨2⟩).2.2 ladder ladderHeap accepted isClass
    have all : classes = [⟨2⟩, ⟨1⟩, ⟨0⟩] :=
      lineage.unique (.derived leaf (.derived middle (.root base)))
    rw [chain_eq, all]
    rfl
  · obtain ⟨⟨classes, halt, chain_eq, -, -, -, -, endless, -⟩, -⟩ :=
      classChain_halts ladderLoop ⟨2⟩
    have way : ladderLoop.Climbs ⟨2⟩ [⟨2⟩, ⟨1⟩, ⟨0⟩] ⟨2⟩ :=
      .up rfl (.up rfl (.up rfl (.here ⟨2⟩)))
    obtain ⟨rfl, rfl⟩ := (endless _).mpr ⟨_, rfl, way⟩
    rw [chain_eq]
    rfl
  · obtain ⟨⟨classes, halt, chain_eq, -, -, -, refused, -⟩, -⟩ := classChain_halts ladderTorn ⟨2⟩
    have way : ladderTorn.Climbs ⟨2⟩ [⟨2⟩, ⟨1⟩] ⟨0⟩ := .up rfl (.up rfl (.here ⟨0⟩))
    obtain ⟨rfl, rfl⟩ := (refused _ .closed).mpr ⟨⟨0⟩, by decide, way, rfl⟩
    rw [chain_eq]
    rfl

end HeapLens.Store
