import HeapLens.Proofs.Collection.View
import HeapLens.Proofs.Query.Calls
import HeapLens.Proofs.Store.Lineage

set_option autoImplicit false

namespace HeapLens

theorem Walk.foldM_eq {ε α β : Type} (f : β → α → Except ε β) (w : Walk α) (b : β) :
    w.foldM f b = w.toList.foldlM f b := by
  induction w generalizing b with
  | done => rfl
  | item a rest ih =>
    rw [Walk.foldM, Walk.toList_item, List.foldlM_cons]
    cases f b a with
    | ok b' => exact ih () b'
    | error e => rfl

theorem toInt_ofNat {n : Nat} (small : n < 4294967296) :
    (Int64.ofNat n).toInt = n :=
  Int64.toInt_ofNat_of_lt (small.trans (by decide))

variable {c : Catalog} {session : Session} {place : Nat} {s : Snapshot} {h : Heap} {x : Handle}
  {n a : NodeId} {r : Record} {strategy : Strategy} {l : Library}

namespace Heap

theorem length_slotsOf_lt (h : Heap) (a : NodeId) : (h.slotsOf a).length < 4294967296 := by
  rw [slotsOf, List.length_take]
  omega

theorem toList_slotsFrom (has : h.Has a) {count i : Nat} (fits : i + count ≤ (h.slotsOf a).length) :
    (h.store.slotsFrom a count i).toList = (((h.slotsOf a).drop i).take count).map .ok := by
  induction count generalizing i with
  | zero => rfl
  | succ count ih =>
    have low : i < (h.slotsOf a).length := by omega
    rw [Store.slotsFrom, Walk.toList_item, slot_eq has low, ih (by omega),
      List.drop_eq_getElem_cons low, List.take_succ_cons, List.map_cons]

theorem slots_eq (has : h.Has a) :
    ∃ w, h.store.slots (some a) = .ok w ∧ w.toList = (h.slotsOf a).map .ok := by
  refine ⟨h.store.slotsFrom a (h.slotsOf a).length 0, ?_, ?_⟩
  · rw [Store.slots, lengthOf_eq has]
    rfl
  · simp [toList_slotsFrom has (Nat.zero_add _).le]

def liveCount (h : Heap) (a : NodeId) : Nat := (h.slotsOf a).countP (· ≠ .null)

theorem liveCount_lt (h : Heap) (a : NodeId) : h.liveCount a < 4294967296 :=
  List.countP_le_length.trans_lt (h.length_slotsOf_lt a)

theorem liveSlots_eq (has : h.Has a) : Catalog.liveSlots h.store a = .ok (h.liveCount a) := by
  obtain ⟨w, read, items⟩ := slots_eq has
  have counted (cells : List Cell) (live : Nat) :
      (cells.map Except.ok).foldlM (fun live slot => do
        let cell ← Task.countSlots.on a slot
        .ok (if cell = .null then live else live + 1)) live =
      (.ok (live + cells.countP (· ≠ .null)) : Except QueryError Nat) := by
    induction cells generalizing live with
    | nil => rfl
    | cons cell cells ih =>
      rw [List.map_cons, List.foldlM_cons, Task.on_ok, ok_bind, ok_bind, ih, List.countP_cons]
      by_cases empty : cell = .null
      · simp [empty]
      · simp [empty]
        omega
  rw [Catalog.liveSlots, read, Task.on_ok, ok_bind, Walk.foldM_eq, items, counted, Nat.zero_add,
    liveCount]

end Heap

def Heap.nameOf? (h : Heap) (d : NodeId) : Option String := (h.shape? d).bind Shape.className?

namespace Catalog

def nearest? (c : Catalog) (h : Heap) (chain : List NodeId) : Option Strategy :=
  chain.findSome? fun d => (h.nameOf? d).bind c.lookup

theorem findIn_eq {chain : List NodeId} (classes : ∀ d ∈ chain, h.HasClass d) :
    c.findIn h.store (chain.map .ok) = .ok (c.nearest? h chain) := by
  induction chain with
  | nil => rfl
  | cons d rest ih =>
    obtain ⟨name, superclass, loader, statics, shape⟩ :=
      Heap.hasClass_iff.mp (classes d List.mem_cons_self)
    obtain ⟨r, held, shape_eq⟩ := Option.map_eq_some_iff.mp shape
    have told : h.store.className d = .ok name :=
      Heap.className_of_eq_some held (by rw [shape_eq]; rfl)
    have name_eq : h.nameOf? d = some name := by rw [Heap.nameOf?, shape]; rfl
    rw [List.map_cons, findIn, told, nearest?, List.findSome?_cons, name_eq, Option.bind_some]
    dsimp only
    cases c.lookup name with
    | some strategy => rfl
    | none => exact ih fun d mem => classes d (List.mem_cons_of_mem _ mem)

/-- A node is read by the strategy that is nearest on the lineage of its class. -/
theorem strategyOf_eq {chain : List NodeId} (sound : h.Sound) (held : h.Holds n r)
    (lineage : h.Lineage r.classId chain) :
    c.strategyOf h.store n = .ok (c.nearest? h chain) := by
  have class_eq : h.store.classOf n = .ok r.classId := Heap.answer_of_holds held _
  have found : c.findIn h.store (h.store.classChain r.classId) = .ok (c.nearest? h chain) := by
    rw [sound.classChain_eq lineage, findIn_eq lineage.hasClass]
  rw [strategyOf, class_eq]
  by_cases nothing : c.entries = []
  · have unnamed : c.nearest? h chain = none :=
      List.findSome?_eq_none_iff.mpr fun d _ => by simp [lookup, nothing]
    simp [nothing, unnamed]
  · rw [if_neg (by simpa using nothing)]
    exact found

theorem strategyFor_eq {store : Store} {o : Option Strategy}
    (known : c.strategyOf store n = .ok o) : c.strategyFor store n = .ok o := by
  rw [strategyFor, known, Task.on_ok]

end Catalog

namespace Session.Opens

section Strategy

variable (opens : session.Opens place h) (within : x.Within place h)
include opens within

theorem sequence?_of_strategy (known : c.strategyOf h.store x.node = .ok (some strategy)) :
    c.sequence? session x =
      .ok (if strategy.form = .sequence then some ⟨x, h.store, some strategy⟩ else none) := by
  rw [Catalog.sequence?, opens.storeOf_eq within, Task.on_ok, ok_bind, Catalog.strategyFor_eq known]
  rfl

theorem sequence?_of_none (held : h.Holds x.node r)
    (unknown : c.strategyOf h.store x.node = .ok none) :
    c.sequence? session x = .ok (if r.kind = .array then some ⟨x, h.store, none⟩ else none) := by
  have kind_eq : h.store.kind x.node = .ok r.kind := Heap.answer_of_holds held _
  rw [Catalog.sequence?, opens.storeOf_eq within, Task.on_ok, ok_bind,
    Catalog.strategyFor_eq unknown, ok_bind]
  change Task.openSequence.on x.node (h.store.kind x.node) >>= _ = _
  rw [kind_eq, Task.on_ok, ok_bind]

theorem map?_of_strategy (known : c.strategyOf h.store x.node = .ok (some strategy)) :
    c.map? session x =
      .ok (if strategy.form = .map then some ⟨x, h.store, strategy⟩ else none) := by
  rw [Catalog.map?, opens.storeOf_eq within, Task.on_ok, ok_bind, Catalog.strategyFor_eq known]
  rfl

theorem map?_of_none (unknown : c.strategyOf h.store x.node = .ok none) :
    c.map? session x = .ok none := by
  rw [Catalog.map?, opens.storeOf_eq within, Task.on_ok, ok_bind, Catalog.strategyFor_eq unknown]
  rfl

theorem sizeOf_of_strategy (known : c.strategyOf h.store x.node = .ok (some strategy))
    (sized : strategy.hasSize = true) :
    c.sizeOf session x =
      (Task.obtainSize.on x.node (strategy.size h.store x.node)).map
        fun size => Int64.ofNat size.toNat := by
  rw [Catalog.sizeOf, opens.storeOf_eq within, Task.on_ok, ok_bind, Catalog.strategyFor_eq known,
    ok_bind]
  change (if strategy.hasSize = true then _ else _) = _
  rw [if_pos sized]
  cases strategy.size h.store x.node <;> rfl

theorem sizeOf_of_none (held : h.Holds x.node r)
    (unknown : c.strategyOf h.store x.node = .ok none) :
    c.sizeOf session x =
      .ok (if r.kind = .array then Int64.ofNat (h.liveCount x.node) else Catalog.unknownSize) := by
  have kind_eq : h.store.kind x.node = .ok r.kind := Heap.answer_of_holds held _
  rw [Catalog.sizeOf, opens.storeOf_eq within, Task.on_ok, ok_bind,
    Catalog.strategyFor_eq unknown, ok_bind]
  change Catalog.sizeWithout h.store x.node = _
  rw [Catalog.sizeWithout, kind_eq, Task.on_ok, ok_bind, Heap.liveSlots_eq within.has, ok_bind]
  split <;> rfl

end Strategy

end Session.Opens

theorem Library.invoke_size (l : Library) (session : Session) (x : Handle) :
    l.invoke session "getSize" [.handle x] = (l.catalog.sizeOf session x).map .integer :=
  invoke_of_find? (f := .size) (by decide +kernel)

/-- Whether an answer is a number of elements, or says that the collection contradicts itself. -/
def IsSizeAnswer (n : NodeId) : Except QueryError QueryValue → Prop :=
  Outcome (fun v => ∃ size : Int64, v = .integer size ∧ 0 ≤ size)
    fun e => ∃ cause, e = .store .obtainSize n (.corrupt cause)

theorem isSizeAnswer_ofNat {k : Nat} (small : k < 4294967296) :
    IsSizeAnswer n (.ok (.integer (Int64.ofNat k))) := by
  refine ⟨Int64.ofNat k, rfl, ?_⟩
  rw [Int64.le_iff_toInt_le, toInt_ofNat small]
  exact Int.natCast_nonneg k

theorem IsSizeAnswer.ne_unknown {answer : Except QueryError QueryValue}
    (size : IsSizeAnswer n answer) : answer ≠ .ok (.integer (-1)) := by
  rintro rfl
  obtain ⟨size, eq, low⟩ := size
  obtain rfl := QueryValue.integer.inj eq
  exact absurd low (by decide)

namespace Session.Opens

theorem isSizeAnswer_of_strategy (opens : session.Opens place h) (within : x.Within place h)
    (known : l.catalog.strategyOf h.store x.node = .ok (some strategy))
    (reliable : strategy.Reliable) :
    IsSizeAnswer x.node (l.invoke session "getSize" [.handle x]) := by
  rw [Library.invoke_size, opens.sizeOf_of_strategy within known reliable.hasSize]
  have told := reliable.size h opens.sound x.node within.has
  cases answer : strategy.size h.store x.node with
  | ok size => exact isSizeAnswer_ofNat size.toNat_lt
  | error fault =>
    rw [answer] at told
    rcases told with rfl | rfl | rfl <;> exact ⟨_, rfl⟩

end Session.Opens

/--
With the built-in strategies every node has the views that it should have: as a sequence, as a map,
or none, and never both. The size `-1` stands for the nodes without a view, and for no other node;
the size of a collection is a natural number, unless the collection contradicts itself.
-/
theorem collections_are_recognized (accepted : Heap.ofSnapshot s = .ok h)
    (opened : session.storeAt place = .ok h.store) (within : x.Within place h)
    (builtin : l.catalog = .builtin) :
    ∃ sequence map, l.catalog.sequence? session x = .ok sequence ∧
      l.catalog.map? session x = .ok map ∧ (sequence = none ∨ map = none) ∧
      (l.invoke session "getSize" [.handle x] = .ok (.integer (-1)) ↔
        sequence = none ∧ map = none) ∧
      (sequence ≠ none ∨ map ≠ none →
        IsSizeAnswer x.node (l.invoke session "getSize" [.handle x])) := by
  have opens : session.Opens place h := ⟨Heap.sound_of_ofSnapshot accepted, opened⟩
  have reliable : l.catalog.Reliable := builtin ▸ Catalog.reliable_builtin
  obtain ⟨o, known, reliable_o⟩ := (reliable.strategyOf opens.sound within.has).exists_eq
  cases o with
  | some strategy =>
    have size := opens.isSizeAnswer_of_strategy within known (reliable_o strategy rfl)
    refine ⟨_, _, opens.sequence?_of_strategy within known, opens.map?_of_strategy within known,
      ?_, ?_, fun _ => size⟩
    · cases strategy.form <;> simp
    · cases strategy.form <;> simp [size.ne_unknown]
  | none =>
    obtain ⟨r, held⟩ := Heap.exists_holds within.has
    have sequence_eq := opens.sequence?_of_none within held known
    have size_eq := opens.sizeOf_of_none within held known
    by_cases array : r.kind = .array
    · rw [if_pos array] at sequence_eq size_eq
      have size : IsSizeAnswer x.node (l.invoke session "getSize" [.handle x]) := by
        rw [Library.invoke_size, size_eq]
        exact isSizeAnswer_ofNat (h.liveCount_lt x.node)
      refine ⟨_, none, sequence_eq, opens.map?_of_none within known, .inr rfl, ?_, fun _ => size⟩
      simp [size.ne_unknown]
    · rw [if_neg array] at sequence_eq size_eq
      refine ⟨none, none, sequence_eq, opens.map?_of_none within known, .inl rfl, ?_, by simp⟩
      rw [Library.invoke_size, size_eq]
      exact ⟨fun _ => ⟨rfl, rfl⟩, fun _ => rfl⟩

def cupboard : Snapshot where
  nodes :=
    [⟨.classNode "java.util.ArrayList" none none [], none, none⟩,
      ⟨.classNode "Shelf" (some ⟨0⟩) none [], none, none⟩,
      ⟨.classNode "Object" none none [], none, none⟩,
      ⟨.plain ⟨1⟩ [⟨"size", .int 2, none⟩, ⟨"elementData", .ref ⟨5⟩, none⟩], none, none⟩,
      ⟨.array ⟨1⟩ [.int 1], none, none⟩,
      ⟨.array ⟨2⟩ [.null, .wide 7, .int 2], none, none⟩,
      ⟨.plain ⟨2⟩ [⟨"size", .int 3, none⟩], none, none⟩]
  roots := [⟨3⟩]

def cupboardHeap : Heap := Heap.assemble (Heap.recordsOfSnapshot cupboard) cupboard.roots

def cupboardSession : Session := Session.empty.opening cupboardHeap.store

theorem ofSnapshot_cupboard : Heap.ofSnapshot cupboard = .ok cupboardHeap :=
  Heap.ofSnapshot_of_defect? (by decide +kernel)

theorem within_cupboard {i : UInt64} (few : i.toNat < 7) : Handle.Within ⟨0, ⟨i⟩⟩ 0 cupboardHeap :=
  ⟨rfl, (Heap.has_iff_of_ofSnapshot ofSnapshot_cupboard).mpr few⟩

theorem collections_cupboard :
    Heap.ofSnapshot cupboard = .ok cupboardHeap ∧
      cupboardSession.storeAt 0 = .ok cupboardHeap.store ∧
      Handle.Within ⟨0, ⟨4⟩⟩ 0 cupboardHeap ∧ Handle.Within ⟨0, ⟨6⟩⟩ 0 cupboardHeap ∧
      (Catalog.builtin.sequence? cupboardSession ⟨0, ⟨6⟩⟩ = .ok none ∧
        Catalog.builtin.map? cupboardSession ⟨0, ⟨6⟩⟩ = .ok none ∧
        knotLibrary.invoke cupboardSession "getSize" [.handle ⟨0, ⟨6⟩⟩] = .ok (.integer (-1))) ∧
      ¬(Catalog.builtin.sequence? cupboardSession ⟨0, ⟨4⟩⟩ = .ok none ∧
        Catalog.builtin.map? cupboardSession ⟨0, ⟨4⟩⟩ = .ok none) ∧
      knotLibrary.invoke cupboardSession "getSize" [.handle ⟨0, ⟨4⟩⟩] =
        .error (.store .obtainSize ⟨4⟩ (.corrupt .missingSize)) := by
  have plain := within_cupboard (i := 6) (by decide)
  have array := within_cupboard (i := 4) (by decide)
  have opened : cupboardSession.storeAt 0 = .ok cupboardHeap.store := rfl
  have unsized : knotLibrary.invoke cupboardSession "getSize" [.handle ⟨0, ⟨6⟩⟩] =
      .ok (.integer (-1)) := by decide +kernel
  have damaged : knotLibrary.invoke cupboardSession "getSize" [.handle ⟨0, ⟨4⟩⟩] =
      .error (.store .obtainSize ⟨4⟩ (.corrupt .missingSize)) := by decide +kernel
  refine ⟨ofSnapshot_cupboard, opened, array, plain, ?_, ?_, damaged⟩
  · obtain ⟨_, _, sequence_eq, map_eq, -, unknown, -⟩ :=
      collections_are_recognized ofSnapshot_cupboard opened plain (l := knotLibrary) rfl
    obtain ⟨rfl, rfl⟩ := unknown.mp unsized
    exact ⟨sequence_eq, map_eq, unsized⟩
  · rintro ⟨no_sequence, no_map⟩
    obtain ⟨_, _, sequence_eq, map_eq, -, unknown, -⟩ :=
      collections_are_recognized ofSnapshot_cupboard opened array (l := knotLibrary) rfl
    obtain rfl := Except.ok.inj (sequence_eq.symm.trans no_sequence)
    obtain rfl := Except.ok.inj (map_eq.symm.trans no_map)
    rw [unknown.mpr ⟨rfl, rfl⟩] at damaged
    cases damaged

end HeapLens
