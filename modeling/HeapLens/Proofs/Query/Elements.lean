import HeapLens.Proofs.Collection.Recognition

set_option autoImplicit false

namespace HeapLens

variable {c : Catalog} {session : Session} {place : Nat} {s : Snapshot} {h : Heap} {x : Handle}
  {n a b : NodeId} {classId : NodeId} {cells : List Cell} {l : Library}
  {sizeField arrayField : String}

namespace Heap

/-- Whether the node is an array of these slots. -/
def IsArray (h : Heap) (a : NodeId) (cells : List Cell) : Prop :=
  ∃ classId, h.shape? a = some (.array classId cells)

/-- Whether 32 bits count the slots of every array. -/
def HasShortArrays (h : Heap) : Prop := ∀ a cells, h.IsArray a cells → cells.length < 4294967296

theorem IsArray.holds (array : h.IsArray a cells) :
    ∃ r, h.Holds a r ∧ r.kind = .array ∧ r.shape.elements = cells := by
  obtain ⟨classId, shape⟩ := array
  obtain ⟨r, held, shape_eq⟩ := Option.map_eq_some_iff.mp shape
  exact ⟨r, held, by rw [Record.kind, shape_eq]; rfl, by rw [shape_eq]; rfl⟩

theorem IsArray.slotsOf_eq (array : h.IsArray a cells) (short : h.HasShortArrays) :
    h.slotsOf a = cells := by
  obtain ⟨classId, shape⟩ := id array
  exact slotsOf_of_short shape (short a cells array)

theorem slotsOf_of_not_isArray (other : ∀ cells, ¬h.IsArray a cells) : h.slotsOf a = [] := by
  rw [slotsOf, cellsOf]
  cases shape : h.shape? a with
  | none => rfl
  | some shape' =>
    cases shape' with
    | array classId cells => exact absurd ⟨classId, shape⟩ (other cells)
    | _ => rfl

theorem arrayLength_eq (array : h.IsArray a cells) :
    h.store.arrayLength a = .ok (some (UInt32.ofNat cells.length)) := by
  obtain ⟨r, held, kind, rfl⟩ := array.holds
  have told : h.store.arrayLength a = .ok (if r.kind = .array
      then some (UInt32.ofNat r.shape.elements.length) else none) := answer_of_holds held _
  rw [told, if_pos kind]

theorem element_eq_getElem? (array : h.IsArray a cells) (i : UInt32) :
    h.store.element a i = .ok cells[i.toNat]? := by
  obtain ⟨r, held, -, rfl⟩ := array.holds
  exact answer_of_holds held _

theorem hasShortArrays_of_ofSnapshot (accepted : ofSnapshot s = .ok h)
    (short : ∀ d ∈ s.nodes, d.shape.elements.length < 4294967296) : h.HasShortArrays := by
  intro a cells array
  obtain ⟨r, held, -, rfl⟩ := array.holds
  obtain ⟨d, described, rfl⟩ := (holds_iff accepted).mp held
  exact short d (List.mem_of_getElem? described)

theorem firstSlots_eq (exist : ∀ b, h.ref? n arrayField = some b → h.Has b) (limit : Nat) :
    ∃ w, h.store.firstSlots (h.ref? n arrayField) limit = .ok w ∧
      w.toList = (((h.ref? n arrayField).elim [] h.slotsOf).take limit).map .ok := by
  cases array : h.ref? n arrayField with
  | none => exact ⟨_, rfl, by simp [Store.slotsFrom]⟩
  | some b =>
    have has := exist b array
    refine ⟨h.store.slotsFrom b (min limit (h.slotsOf b).length) 0, ?_, ?_⟩
    · rw [Store.firstSlots, lengthOf_eq has]
      rfl
    · rw [toList_slotsFrom has (by omega), List.drop_zero, Option.elim_some, List.take_eq_take_min]
      simp

theorem readSize_eq (has : h.Has n) {m : Int64} (size : h.int? n sizeField = some m)
    (low : 0 ≤ m.toInt) (high : m.toInt < 4294967296) :
    h.store.readSize n sizeField = .ok (UInt32.ofNat m.toInt.toNat) := by
  obtain ⟨cell, at_n, value⟩ := Option.bind_eq_some_iff.mp size
  rw [Store.readSize, readField_eq has, at_n, ok_bind]
  simp only [value]
  exact if_pos ⟨low, high⟩

def sizeFlaw (h : Heap) (n : NodeId) (sizeField : String) : Corruption :=
  if h.field? n sizeField = none then .missingSize else .badSize

theorem readSize_eq_error (has : h.Has n)
    (unfit : ∀ m, h.int? n sizeField = some m → ¬(0 ≤ m.toInt ∧ m.toInt < 4294967296)) :
    h.store.readSize n sizeField = .error (.corrupt (h.sizeFlaw n sizeField)) := by
  rw [Store.readSize, readField_eq has, sizeFlaw, ok_bind]
  cases at_n : h.field? n sizeField with
  | none => rfl
  | some cell =>
    simp only [reduceCtorEq, if_false]
    cases value : cell.int64? with
    | none => rfl
    | some m => exact if_neg (unfit m (by rw [int?, at_n]; exact value))

end Heap

/-- The value in a slot of an array, counted from zero; nothing beyond both ends. -/
def Handle.slotValue (x : Handle) (cells : List Cell) (i : Int) :
    Except QueryError QueryValue :=
  if 0 ≤ i then (cells[i.toNat]?).elim (.ok .null) (QueryValue.ofCell x) else .ok .null

theorem QueryValue.unsupported_of_ofCell {cell : Cell} {e : QueryError}
    (fails : QueryValue.ofCell x cell = .error e) : UnsupportedError e := by
  cases cell <;> simp [QueryValue.ofCell] at fails
  · exact ⟨_, fails.symm⟩
  · exact ⟨_, fails.symm⟩

namespace Library

theorem invoke_length (l : Library) (session : Session) (x : Handle) :
    l.invoke session "length" [.handle x] =
      ((QueryValue.handle x).arrayLength session).map .integer :=
  invoke_of_find? (f := .length) (by decide +kernel)

theorem invoke_element (l : Library) (session : Session) (x : Handle) (i : Int64) :
    l.invoke session "getElement" [.handle x, .integer i] =
      (QueryValue.handle x).element session i :=
  invoke_of_find? (f := .element) (by decide +kernel)

/--
Whether items are the first `count` elements of an array, each of them what a call for it answers;
only values of a type that queries do not know are missing.
-/
structure Enumerates (l : Library) (session : Session) (x : Handle) (count : Nat)
    (items : List (Except QueryError QueryValue)) : Prop where
  length_eq : items.length = count
  element_eq : ∀ i (low : i < items.length),
    l.invoke session "getElement" [.handle x, .integer (Int64.ofNat i)] = items[i]
  fails : ∀ e, .error e ∈ items → UnsupportedError e

end Library

namespace Session.Opens

section Array

variable (opens : session.Opens place h) (within : x.Within place h)
include opens within

theorem invoke_length (array : h.IsArray x.node cells) (short : h.HasShortArrays) :
    l.invoke session "length" [.handle x] = .ok (.integer (Int64.ofNat cells.length)) := by
  rw [Library.invoke_length, QueryValue.arrayLength, QueryValue.askNode]
  simp only [QueryValue.handle?, opens.storeOf_eq within, Heap.arrayLength_eq array, Task.on_ok,
    ok_bind, Option.elim_some, Except.map]
  rw [UInt32.toNat_ofNat_of_lt' (short _ cells array)]

theorem invoke_element (array : h.IsArray x.node cells) (short : h.HasShortArrays) (i : Int64) :
    l.invoke session "getElement" [.handle x, .integer i] = x.slotValue cells i.toInt := by
  have few := short _ cells array
  rw [Library.invoke_element, QueryValue.element, Handle.slotValue]
  by_cases range : 0 ≤ i.toInt ∧ i.toInt < UInt32.size
  · have word : (UInt32.ofNat i.toInt.toNat).toNat = i.toInt.toNat :=
      UInt32.toNat_ofNat_of_lt' ((Int.toNat_lt range.1).mpr range.2)
    rw [if_pos range, if_pos range.1, QueryValue.askNode]
    simp only [QueryValue.handle?, opens.storeOf_eq within, Heap.element_eq_getElem? array,
      Task.on_ok, ok_bind, word]
    cases cells[i.toInt.toNat]? <;> rfl
  · rw [if_neg range]
    by_cases low : 0 ≤ i.toInt
    · have beyond : cells.length ≤ i.toInt.toNat := by
        have high : (UInt32.size : Int) = 4294967296 := rfl
        omega
      rw [if_pos low, List.getElem?_eq_none beyond]
      rfl
    · rw [if_neg low]

theorem enumerates_take (array : h.IsArray x.node cells) (short : h.HasShortArrays) (limit : Nat)
    {owner : Handle} (same : owner.store = x.store) :
    l.Enumerates session x (min limit cells.length)
      ((cells.take limit).map (QueryValue.ofCell owner)) where
  length_eq := by rw [List.length_map, List.length_take]
  element_eq i low := by
    have few := short _ cells array
    rw [List.length_map, List.length_take] at low
    have sibling (cell : Cell) : QueryValue.ofCell x cell = QueryValue.ofCell owner cell := by
      cases cell <;> simp [QueryValue.ofCell, Handle.sibling, same]
    rw [opens.invoke_element within array short, Handle.slotValue, toInt_ofNat (by omega),
      if_pos (Int.natCast_nonneg i), Int.toNat_natCast, List.getElem?_eq_getElem (by omega)]
    simp [sibling]
  fails e mem := by
    obtain ⟨cell, -, fails⟩ := List.mem_map.mp mem
    exact QueryValue.unsupported_of_ofCell fails

end Array

end Session.Opens

theorem SequenceView.value_ok (view : SequenceView) (cell : Cell) :
    view.value (.ok cell) = QueryValue.ofCell view.owner cell := rfl

theorem SequenceView.items_eq (view : SequenceView) {w : Walk (Except Fault Cell)}
    (read : (match view.strategy with
      | some strategy => strategy.elements view.store view.owner.node
      | none => view.store.slots (some view.owner.node)) = .ok w)
    (all : w.toList = cells.map .ok) :
    ∃ items, view.items = .ok items ∧
      items.toList = cells.map (QueryValue.ofCell view.owner) := by
  refine ⟨w.map view.value, ?_, ?_⟩
  · rw [SequenceView.items]
    exact congrArg (fun cells => Task.enumerateElements.on view.owner.node cells >>= fun cells =>
      .ok (cells.map view.value)) read
  · rw [Walk.toList_map, all, List.map_map]
    exact List.map_congr_left fun cell _ => view.value_ok cell

/-- Whether the answers about an array without a strategy are those about its slots. -/
structure Library.TellsArray (l : Library) (session : Session) (x : Handle) (cells : List Cell) :
    Prop where
  length : l.invoke session "length" [.handle x] = .ok (.integer (Int64.ofNat cells.length))
  element : ∀ i : Int64,
    l.invoke session "getElement" [.handle x, .integer i] = x.slotValue cells i.toInt
  items : ∃ view items, l.catalog.sequence? session x = .ok (some view) ∧
    view.items = .ok items ∧ l.Enumerates session x cells.length items.toList
  size : l.invoke session "getSize" [.handle x] =
    .ok (.integer (Int64.ofNat (cells.countP (· ≠ .null))))

/--
Whether the answers about a list are those about the slots of its array, as far as its size goes. If
the size cannot be read, its elements cannot either, and for the same reason.
-/
structure Library.TellsList (l : Library) (session : Session) (h : Heap) (x : Handle)
    (view : SequenceView) (sizeField arrayField : String) : Prop where
  size : ∀ m, h.int? x.node sizeField = some m → 0 ≤ m.toInt → m.toInt < 4294967296 →
    l.invoke session "getSize" [.handle x] = .ok (.integer m)
  elements : ∀ m, h.int? x.node sizeField = some m → 0 ≤ m.toInt → m.toInt < 4294967296 →
    ∀ b cells, h.ref? x.node arrayField = some b → h.IsArray b cells →
      l.invoke session "length" [.handle (x.sibling b)] =
          .ok (.integer (Int64.ofNat cells.length)) ∧
        ∃ items, view.items = .ok items ∧
          l.Enumerates session (x.sibling b) (min m.toInt.toNat cells.length) items.toList
  nothing : ∀ m, h.int? x.node sizeField = some m → 0 ≤ m.toInt → m.toInt < 4294967296 →
    (∀ b cells, h.ref? x.node arrayField = some b → ¬h.IsArray b cells) →
      ∃ items, view.items = .ok items ∧ items.toList = []
  unsized : (∀ m, h.int? x.node sizeField = some m → ¬(0 ≤ m.toInt ∧ m.toInt < 4294967296)) →
    l.invoke session "getSize" [.handle x] =
        .error (.store .obtainSize x.node (.corrupt (h.sizeFlaw x.node sizeField))) ∧
      view.items =
        .error (.store .enumerateElements x.node (.corrupt (h.sizeFlaw x.node sizeField)))

namespace Session.Opens

variable (opens : session.Opens place h) (within : x.Within place h)
include opens within

theorem tellsArray (short : h.HasShortArrays) (array : h.IsArray x.node cells)
    (unknown : l.catalog.strategyOf h.store x.node = .ok none) : l.TellsArray session x cells where
  length := opens.invoke_length within array short
  element := opens.invoke_element within array short
  items := by
    obtain ⟨r, held, kind, -⟩ := array.holds
    obtain ⟨w, read, all⟩ := Heap.slots_eq within.has
    rw [array.slotsOf_eq short] at all
    obtain ⟨items, items_eq, values⟩ :=
      SequenceView.items_eq ⟨x, h.store, none⟩ read all
    refine ⟨_, items, (opens.sequence?_of_none within held unknown).trans (by rw [if_pos kind]),
      items_eq, ?_⟩
    have enumerates := opens.enumerates_take (l := l) within array short cells.length rfl
    rwa [List.take_length, Nat.min_self, ← values] at enumerates
  size := by
    obtain ⟨r, held, kind, -⟩ := array.holds
    rw [Library.invoke_size, opens.sizeOf_of_none within held unknown, if_pos kind, Heap.liveCount,
      array.slotsOf_eq short]
    rfl

theorem items_of_size {m : Int64} (size : h.int? x.node sizeField = some m) (low : 0 ≤ m.toInt)
    (high : m.toInt < 4294967296) :
    ∃ items, SequenceView.items ⟨x, h.store, some (.countedArray sizeField arrayField)⟩ =
        .ok items ∧
      items.toList = (((h.ref? x.node arrayField).elim [] h.slotsOf).take m.toInt.toNat).map
        (QueryValue.ofCell x) := by
  have word : (UInt32.ofNat m.toInt.toNat).toNat = m.toInt.toNat :=
    UInt32.toNat_ofNat_of_lt' ((Int.toNat_lt low).mpr high)
  have exist : ∀ b, h.ref? x.node arrayField = some b → h.Has b :=
    fun b refers => opens.sound.has_of_ref? refers
  obtain ⟨w, read, all⟩ := Heap.firstSlots_eq exist m.toInt.toNat
  refine SequenceView.items_eq ⟨x, h.store, some (.countedArray _ _)⟩ ?_ all
  change (do
    let size ← h.store.readSize x.node sizeField
    let array ← h.store.readRef x.node arrayField
    h.store.firstSlots array size.toNat) = _
  rw [Heap.readSize_eq within.has size low high, Heap.readRef_eq within.has, ok_bind, ok_bind, word,
    read]

theorem tellsList (short : h.HasShortArrays)
    (known : l.catalog.strategyOf h.store x.node =
      .ok (some (.countedArray sizeField arrayField))) :
    l.TellsList session h x ⟨x, h.store, some (.countedArray sizeField arrayField)⟩ sizeField
      arrayField where
  size m size low high := by
    rw [Library.invoke_size, opens.sizeOf_of_strategy within known rfl]
    change ((Task.obtainSize.on _ (h.store.readSize x.node sizeField)).map _).map _ = _
    have word : (UInt32.ofNat m.toInt.toNat).toNat = m.toInt.toNat :=
      UInt32.toNat_ofNat_of_lt' ((Int.toNat_lt low).mpr high)
    have same : Int64.ofNat m.toInt.toNat = m := by
      rw [← Int64.toInt_inj, toInt_ofNat (by omega), Int.toNat_of_nonneg low]
    rw [Heap.readSize_eq within.has size low high]
    change Except.ok (QueryValue.integer (Int64.ofNat (UInt32.ofNat m.toInt.toNat).toNat)) = _
    rw [word, same]
  elements m size low high b cells refers array := by
    have exist := opens.sound.has_of_ref? refers
    have sibling : (x.sibling b).Within place h := within.sibling exist
    obtain ⟨items, items_eq, values⟩ := opens.items_of_size within size low high
    refine ⟨opens.invoke_length sibling array short, items, items_eq, ?_⟩
    rw [values, refers, Option.elim_some, array.slotsOf_eq short]
    exact opens.enumerates_take sibling array short m.toInt.toNat rfl
  nothing m size low high other := by
    obtain ⟨items, items_eq, values⟩ := opens.items_of_size within size low high
    refine ⟨items, items_eq, ?_⟩
    cases refers : h.ref? x.node arrayField with
    | none => rw [values, refers]; simp
    | some b =>
      rw [values, refers, Option.elim_some,
        Heap.slotsOf_of_not_isArray fun cells => other b cells refers]
      simp
  unsized unfit := by
    have fails := Heap.readSize_eq_error within.has unfit
    constructor
    · rw [Library.invoke_size, opens.sizeOf_of_strategy within known rfl]
      change ((Task.obtainSize.on _ (h.store.readSize x.node sizeField)).map _).map _ = _
      rw [fails]
      rfl
    · rw [SequenceView.items]
      change Task.enumerateElements.on _ (h.store.readSize x.node sizeField >>= _) >>= _ = _
      rw [fails]
      rfl

end Session.Opens

/--
An array without a strategy has as many elements as slots. Each of them is read by its number,
enumerated at its place, and counted if it holds something, whatever its value is. A list in an array
has the elements of the array as far as its size goes, and none if there is no array; with a size
that cannot be read it has neither a size nor elements.
-/
theorem sequences_are_their_slots (accepted : Heap.ofSnapshot s = .ok h)
    (opened : session.storeAt place = .ok h.store) (within : x.Within place h)
    (short : h.HasShortArrays) (l : Library) :
    (∀ cells, h.IsArray x.node cells → l.catalog.strategyOf h.store x.node = .ok none →
        l.TellsArray session x cells) ∧
      ∀ sizeField arrayField,
        l.catalog.strategyOf h.store x.node = .ok (some (.countedArray sizeField arrayField)) →
          ∃ view, l.catalog.sequence? session x = .ok (some view) ∧
            l.TellsList session h x view sizeField arrayField := by
  have opens : session.Opens place h := ⟨Heap.sound_of_ofSnapshot accepted, opened⟩
  refine ⟨fun cells => opens.tellsArray within short, fun sizeField arrayField known => ?_⟩
  exact ⟨_, opens.sequence?_of_strategy within known, opens.tellsList within short known⟩

/-- A list that ends in the middle of its array, behind a value that nobody can convert. -/
theorem sequences_cupboard :
    Heap.ofSnapshot cupboard = .ok cupboardHeap ∧
      cupboardSession.storeAt 0 = .ok cupboardHeap.store ∧
      Handle.Within ⟨0, ⟨3⟩⟩ 0 cupboardHeap ∧ Handle.Within ⟨0, ⟨5⟩⟩ 0 cupboardHeap ∧
      cupboardHeap.HasShortArrays ∧
      knotLibrary.TellsArray cupboardSession ⟨0, ⟨5⟩⟩ [.null, .wide 7, .int 2] ∧
      ∃ view items, Catalog.builtin.sequence? cupboardSession ⟨0, ⟨3⟩⟩ = .ok (some view) ∧
        view.items = .ok items ∧
        items.toList = [.ok .null, .error (.unsupportedType (Cell.wide 7).typeName)] := by
  have list := within_cupboard (i := 3) (by decide)
  have array := within_cupboard (i := 5) (by decide)
  have opened : cupboardSession.storeAt 0 = .ok cupboardHeap.store := rfl
  have short := Heap.hasShortArrays_of_ofSnapshot ofSnapshot_cupboard (by decide)
  have shape : cupboardHeap.IsArray ⟨5⟩ [.null, .wide 7, .int 2] :=
    ⟨_, Heap.shape?_of_describes ofSnapshot_cupboard (n := ⟨5⟩) rfl⟩
  refine ⟨ofSnapshot_cupboard, opened, list, array, short, ?_, ?_⟩
  · exact (sequences_are_their_slots ofSnapshot_cupboard opened array short knotLibrary).1 _ shape
      rfl
  · obtain ⟨view, sequence_eq, tells⟩ :=
      (sequences_are_their_slots ofSnapshot_cupboard opened list short knotLibrary).2
        "size" "elementData" rfl
    obtain ⟨-, items, items_eq, enumerates⟩ := tells.elements 2 (by decide +kernel) (by decide)
      (by decide) ⟨5⟩ _ (by decide +kernel) shape
    refine ⟨view, items, sequence_eq, items_eq, ?_⟩
    obtain ⟨first, second, two⟩ := List.length_eq_two.mp enumerates.length_eq
    have read := enumerates.element_eq
    simp only [two, List.length_cons, List.length_nil] at read
    rw [two, ← show _ = first from read 0 (by decide), ← show _ = second from read 1 (by decide)]
    decide +kernel

end HeapLens
