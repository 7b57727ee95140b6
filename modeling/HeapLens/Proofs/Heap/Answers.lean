import HeapLens.Proofs.Heap.Sound

/-!
# What a heap answers about its snapshot

`Snapshot.ToldBy` says request by request how the answers of a store follow from the descriptions of
the nodes, and `Snapshot.Blames` what may be said of a snapshot that is refused. A snapshot is
accepted exactly if it is valid.
-/

set_option autoImplicit false

namespace HeapLens

namespace Store

def RefusesClass (t : Store) (id : NodeId) : Prop :=
  t.className id = .error (.corrupt .notClass) ∧ t.superclass id = .error (.corrupt .notClass) ∧
    t.classLoader id = .error (.corrupt .notClass) ∧
    t.staticFields id = .error (.corrupt .notClass)

/-- Whether the slots of an array are told by number, and of their number the low 32 bits. -/
def TellsSlots (t : Store) (id : NodeId) (elements : List Cell) : Prop :=
  (∃ length : UInt32, t.arrayLength id = .ok (some length) ∧
      length.toNat = elements.length % 4294967296) ∧
    ∀ k : UInt32, t.element id k = .ok elements[k.toNat]?

def TellsNoSlots (t : Store) (id : NodeId) : Prop :=
  t.arrayLength id = .ok none ∧ ∀ k, t.element id k = .ok none

end Store

namespace Snapshot

def IsNamed (s : Snapshot) (name : String) (id : NodeId) : Prop :=
  ∃ n, s.Describes id n ∧ n.shape.className? = some name

/-- Whether `c` is the class of class `id`: the first class of classes, or `id` if there is none. -/
def ClassOfClass (s : Snapshot) (id c : NodeId) : Prop :=
  (s.IsNamed "java.lang.Class" c ∧ ∀ e, s.IsNamed "java.lang.Class" e → c.index ≤ e.index) ∨
    ((∀ e, ¬s.IsNamed "java.lang.Class" e) ∧ c = id)

/-- The size of a node, which without a given one depends on how much it holds. -/
def sizeOf (n : Node) : UInt64 :=
  n.size.getD <| UInt64.ofNat <|
    match n.shape with
    | .classNode _ _ _ statics => 64 + 8 * statics.length
    | .plain _ fields => 16 + 8 * fields.length
    | .loader _ fields => 16 + 8 * fields.length
    | .array _ elements => 16 + 8 * elements.length

/-- Whether a store answers about a node what its shape says. -/
def TellsShape (s : Snapshot) (t : Store) (id : NodeId) : Shape → Prop
  | .classNode name superclass loader statics =>
    t.kind id = .ok .classNode ∧ (∃ c, t.classOf id = .ok c ∧ s.ClassOfClass id c) ∧
      t.className id = .ok name ∧ t.superclass id = .ok superclass ∧
      t.classLoader id = .ok loader ∧ t.staticFields id = .ok statics ∧
      t.objectFields id = .ok [] ∧ t.TellsNoSlots id
  | .plain classId fields =>
    t.kind id = .ok .plain ∧ t.classOf id = .ok classId ∧ t.objectFields id = .ok fields ∧
      t.RefusesClass id ∧ t.TellsNoSlots id
  | .loader classId fields =>
    t.kind id = .ok .loader ∧ t.classOf id = .ok classId ∧ t.objectFields id = .ok fields ∧
      t.RefusesClass id ∧ t.TellsNoSlots id
  | .array classId elements =>
    t.kind id = .ok .array ∧ t.classOf id = .ok classId ∧ t.objectFields id = .ok [] ∧
      t.RefusesClass id ∧ t.TellsSlots id elements

/-- Whether a store answers everything as it is described. -/
structure ToldBy (s : Snapshot) (t : Store) : Prop where
  shapes : ∀ id n, s.Describes id n → s.TellsShape t id n.shape
  addresses : ∀ id n, s.Describes id n → t.address id = .ok (addressOf id n)
  sizes : ∀ id n, s.Describes id n → t.size id = .ok (sizeOf n)
  nothing_else : ∀ id, ¬s.Exists id → t.kind id = .error (.missingNode id)
  nodes_at : ∀ a id, t.nodeAt a = some id ↔ ∃ n, s.Describes id n ∧ addressOf id n = a
  roots_eq : t.roots = s.roots
  count_eq : t.nodeCount = s.nodes.length

/-- Whether a text says of a snapshot what is wrong with it, and where. -/
inductive Blames (s : Snapshot) : String → Prop
  | tooManyNodes : 4294967295 ≤ s.nodes.length →
    Blames s ("invalid snapshot: " ++ String.ofList (Text.decimal s.nodes.length) ++
      " nodes exceed the supported snapshot size")
  | missingNode {id target : NodeId} {n : Node} : s.Describes id n → n.shape.Names target →
    ¬s.Exists target →
    Blames s ("invalid snapshot: node #" ++ String.ofList (Text.decimal id.index) ++
      " references missing node #" ++ String.ofList (Text.decimal target.index))
  | classNotClass {id c : NodeId} {n : Node} : s.Describes id n → n.shape.classId? = some c →
    ¬s.IsClass c →
    Blames s ("invalid snapshot: class of node #" ++ String.ofList (Text.decimal id.index) ++
      " is not a class node")
  | superclassNotClass {id c : NodeId} {n : Node} : s.Describes id n →
    n.shape.superclass? = some c → ¬s.IsClass c →
    Blames s ("invalid snapshot: superclass of node #" ++ String.ofList (Text.decimal id.index) ++
      " is not a class node")
  | declaredByNotClass {id c : NodeId} {n : Node} {f : Field} : s.Describes id n →
    f ∈ n.shape.fields → f.declaredBy = some c → ¬s.IsClass c →
    Blames s ("invalid snapshot: field of node #" ++ String.ofList (Text.decimal id.index) ++
      " is declared by #" ++ String.ofList (Text.decimal c.index) ++
      ", which is not a class node")
  | cyclicHierarchy {id : NodeId} : Relation.TransGen s.Extends id id →
    Blames s ("invalid snapshot: superclass chain of node #" ++
      String.ofList (Text.decimal id.index) ++ " is cyclic")
  | missingRoot {root : NodeId} : root ∈ s.roots → ¬s.Exists root →
    Blames s ("invalid snapshot: GC root #" ++ String.ofList (Text.decimal root.index) ++
      " does not exist")
  | sharedAddress {a b : NodeId} {m n : Node} : a ≠ b → s.Describes a m → s.Describes b n →
    addressOf a m = addressOf b n →
    Blames s ("invalid snapshot: duplicate address 0x" ++
      String.ofList (Text.hexadecimal (addressOf a m).toNat))

end Snapshot

theorem Snapshot.blames_label {s : Snapshot} (before : String) {after : String} {id : NodeId}
    (text : s.Blames (before ++ "#" ++ String.ofList (Text.decimal id.index) ++ after)) :
    s.Blames (before ++ id.label ++ after) := by
  rwa [NodeId.append_label]

/-- What a defect says is so of the snapshot that has it. -/
theorem Defect.Violates.blames {s : Snapshot} {d : Defect} (h : d.Violates s) :
    s.Blames d.message := by
  cases d with
  | tooManyNodes count =>
    obtain ⟨rfl, many⟩ := h
    have numeral : Cell.intText s.nodes.length = String.ofList (Text.decimal s.nodes.length) := by
      simp [Cell.intText]
    have text := Snapshot.Blames.tooManyNodes many
    rw [← numeral] at text
    exact text
  | missingNode node target =>
    obtain ⟨n, described, named, missing⟩ := h
    have text := Snapshot.Blames.missingNode described named missing
    have subject : "invalid snapshot: node " ++ node.label = "invalid snapshot: node #" ++ _ :=
      NodeId.append_label _ node
    have object : " references missing node " ++ target.label =
      " references missing node #" ++ _ := NodeId.append_label _ target
    rw [← subject, String.append_assoc, ← object, ← String.append_assoc] at text
    exact text
  | classNotClass node =>
    obtain ⟨n, c, described, given, -, other⟩ := h
    exact Snapshot.blames_label "invalid snapshot: class of node "
      (.classNotClass described given other)
  | superclassNotClass node =>
    obtain ⟨n, c, described, given, -, other⟩ := h
    exact Snapshot.blames_label "invalid snapshot: superclass of node "
      (.superclassNotClass described given other)
  | declaredByNotClass node declarer =>
    obtain ⟨n, described, f, mem, declared, other⟩ := h
    have text := Snapshot.Blames.declaredByNotClass described mem declared other
    have subject : "invalid snapshot: field of node " ++ node.label =
      "invalid snapshot: field of node #" ++ _ := NodeId.append_label _ node
    have object : " is declared by " ++ declarer.label = " is declared by #" ++ _ :=
      NodeId.append_label _ declarer
    rw [← subject, @String.append_assoc _ " is declared by #", ← object, ← String.append_assoc]
      at text
    exact text
  | cyclicHierarchy node =>
    exact Snapshot.blames_label "invalid snapshot: superclass chain of node " (.cyclicHierarchy h)
  | missingRoot root =>
    exact Snapshot.blames_label "invalid snapshot: GC root " (.missingRoot h.1 h.2)
  | sharedAddress address =>
    obtain ⟨a, b, m, n, apart, at_a, at_b, rfl, same⟩ := h
    have text := Snapshot.Blames.sharedAddress apart at_a at_b same.symm
    have object : "invalid snapshot: duplicate address " ++ Text.address (Snapshot.addressOf a m) =
      "invalid snapshot: duplicate address 0x" ++ _ := String.append_assoc.symm
    rw [← object] at text
    exact text

namespace Heap

variable {s : Snapshot} {h : Heap} {id : NodeId} {n : Node}

theorem metaclass?_eq_none (none_found : metaclass? s.nodes = none) (e : NodeId) :
    ¬s.IsNamed metaclassName e := by
  rintro ⟨n, described, named⟩
  have all := List.findIdx?_eq_none_iff.mp (Option.map_eq_none_iff.mp none_found)
  have other := all n (List.mem_of_getElem? described)
  simp [named] at other

theorem classOfClass_complete (few : s.nodes.length < 4294967295)
    (isClassNode : n.shape.classId? = none) :
    s.ClassOfClass id (complete (metaclass? s.nodes) id.index n).classId := by
  simp only [complete, isClassNode, Option.getD_none]
  cases found : metaclass? s.nodes with
  | none =>
    rw [Option.getD_none, NodeId.ofIndex_index]
    exact .inr ⟨metaclass?_eq_none found, rfl⟩
  | some c =>
    obtain ⟨named, first⟩ := metaclass?_eq_some few found
    refine .inl ⟨named, ?_⟩
    rintro e ⟨m, described, named'⟩
    by_contra before
    exact first e.index (Nat.lt_of_not_le before) m described named'

theorem defaultSize_eq (n : Node) : n.size.getD n.shape.defaultSize = Snapshot.sizeOf n := by
  have sum_eq (header cells : Nat) : UInt64.ofNat header + Shape.slotBytes * UInt64.ofNat cells =
      UInt64.ofNat (header + 8 * cells) := by
    rw [UInt64.ofNat_add, UInt64.ofNat_mul]
    rfl
  obtain ⟨shape, address, size⟩ := n
  cases size with
  | some bytes => rfl
  | none =>
    cases shape with
    | classNode name superclass loader statics => exact sum_eq 64 statics.length
    | plain classId fields => exact sum_eq 16 fields.length
    | loader classId fields => exact sum_eq 16 fields.length
    | array classId elements =>
      have slots_eq : (Shape.array classId elements).slots = elements.length := Nat.zero_add _
      change Shape.headerBytes +
        Shape.slotBytes * UInt64.ofNat (Shape.array classId elements).slots = _
      rw [slots_eq]
      exact sum_eq 16 elements.length

theorem holds_complete (accepted : ofSnapshot s = .ok h) (described : s.Describes id n) :
    h.Holds id (complete (metaclass? s.nodes) id.index n) :=
  (holds_iff accepted).mpr ⟨n, described, rfl⟩

theorem refusesClass {r : Record} (held : h.Holds id r) (other : r.kind ≠ .classNode)
    (unnamed : r.shape.className? = none) : h.store.RefusesClass id :=
  ⟨className_of_eq_none held unnamed, classAnswer_of_ne held other _,
    classAnswer_of_ne held other _, classAnswer_of_ne held other _⟩

theorem tellsNoSlots {r : Record} (held : h.Holds id r) (other : r.kind ≠ .array)
    (empty : r.shape.elements = []) : h.store.TellsNoSlots id := by
  have length : h.store.arrayLength id = .ok (if r.kind = .array
      then some (UInt32.ofNat r.shape.elements.length) else none) := answer_of_holds held _
  have slot (k : UInt32) : h.store.element id k = .ok r.shape.elements[k.toNat]? :=
    answer_of_holds held _
  rw [if_neg other] at length
  refine ⟨length, fun k => ?_⟩
  rw [slot, empty]
  rfl

theorem tellsShape (accepted : ofSnapshot s = .ok h) (described : s.Describes id n) :
    s.TellsShape h.store id n.shape := by
  have few := (valid_of_ofSnapshot accepted).1.few
  have held := holds_complete accepted described
  obtain ⟨shape, address, size⟩ := n
  cases shape with
  | classNode name superclass loader statics =>
    exact ⟨answer_of_holds held _, ⟨_, answer_of_holds held _, classOfClass_complete few rfl⟩,
      className_of_eq_some held rfl, classAnswer_of_holds held rfl _,
      classAnswer_of_holds held rfl _, classAnswer_of_holds held rfl _, answer_of_holds held _,
      tellsNoSlots held nofun rfl⟩
  | plain classId fields =>
    exact ⟨answer_of_holds held _, answer_of_holds held _, answer_of_holds held _,
      refusesClass held nofun rfl, tellsNoSlots held nofun rfl⟩
  | loader classId fields =>
    exact ⟨answer_of_holds held _, answer_of_holds held _, answer_of_holds held _,
      refusesClass held nofun rfl, tellsNoSlots held nofun rfl⟩
  | array classId elements =>
    exact ⟨answer_of_holds held _, answer_of_holds held _, answer_of_holds held _,
      refusesClass held nofun rfl, ⟨_, answer_of_holds held _, UInt32.toNat_ofNat'⟩,
      fun k => answer_of_holds held _⟩

theorem nodeAt_iff (accepted : ofSnapshot s = .ok h) (a : UInt64) (id : NodeId) :
    h.store.nodeAt a = some id ↔ ∃ n, s.Describes id n ∧ Snapshot.addressOf id n = a := by
  have sound := sound_of_ofSnapshot accepted
  have valid := (valid_of_ofSnapshot accepted).1
  change (h.records.findIdx? (·.address = a)).map NodeId.ofIndex = some id ↔ _
  have forward (e : NodeId)
      (told : (h.records.findIdx? (·.address = a)).map NodeId.ofIndex = some e) :
      ∃ n, s.Describes e n ∧ Snapshot.addressOf e n = a := by
    obtain ⟨i, found, rfl⟩ := Option.map_eq_some_iff.mp told
    obtain ⟨bound, at_i, _⟩ := Array.findIdx?_eq_some_iff_getElem.mp found
    have held : h.Holds (.ofIndex i) h.records[i] := by
      rw [Holds, sound.index_ofIndex bound]
      exact Array.getElem?_eq_getElem bound
    obtain ⟨n, described, eq⟩ := (holds_iff accepted).mp held
    refine ⟨n, described, ?_⟩
    rw [← of_decide_eq_true at_i, ← eq]
    exact (address_complete _ _ n).symm
  refine ⟨forward id, ?_⟩
  rintro ⟨n, described, eq⟩
  have held := holds_complete accepted described
  cases found : h.records.findIdx? (·.address = a) with
  | none =>
    have apart := Array.findIdx?_eq_none_iff.mp found _ (Array.mem_of_getElem? held)
    rw [address_complete, eq, decide_eq_true rfl] at apart
    exact absurd apart (by decide)
  | some i =>
    obtain ⟨m, described', eq'⟩ := forward (.ofIndex i) (by rw [found]; rfl)
    rw [Option.map_some,
      valid.addresses_differ _ _ m n described' described (eq'.trans eq.symm)]

theorem toldBy (accepted : ofSnapshot s = .ok h) : s.ToldBy h.store where
  shapes _ _ := tellsShape accepted
  addresses id n described := by
    rw [← address_complete (metaclass? s.nodes)]
    exact answer_of_holds (holds_complete accepted described) Record.address
  sizes id n described := by
    rw [← defaultSize_eq]
    exact answer_of_holds (holds_complete accepted described) Record.size
  nothing_else id missing := by
    have beyond : h.records[id.index]? = none := by
      have size_eq : h.records.size = s.nodes.length := size_of_ofSnapshot accepted
      rw [Array.getElem?_eq_none_iff, size_eq]
      exact Nat.le_of_not_lt missing
    change (h.record id).map _ = _
    rw [record, beyond]
    rfl
  nodes_at := nodeAt_iff accepted
  roots_eq := by
    obtain ⟨_, rfl⟩ := valid_of_ofSnapshot accepted
    rfl
  count_eq := size_of_ofSnapshot accepted

theorem exists_of_valid (valid : s.Valid) : ∃ h, ofSnapshot s = .ok h := by
  have outcome := ofSnapshot_outcome s
  cases result : ofSnapshot s with
  | ok h => exact ⟨h, rfl⟩
  | error d =>
    rw [result] at outcome
    exact absurd valid outcome.not_valid

/--
A snapshot describes a heap exactly if it is valid. The heap tells everything as it was described,
and what is said of a snapshot that is refused is so.
-/
theorem ofSnapshot_accepts_valid (s : Snapshot) :
    ((∃ h, ofSnapshot s = .ok h) ↔ s.Valid) ∧
      (∀ h, ofSnapshot s = .ok h → s.ToldBy h.store) ∧
      ∀ d, ofSnapshot s = .error d → d.Violates s ∧ s.Blames d.message := by
  refine ⟨⟨?_, exists_of_valid⟩, fun h accepted => toldBy accepted, fun d refused => ?_⟩
  · rintro ⟨h, accepted⟩
    exact (valid_of_ofSnapshot accepted).1
  · have outcome := ofSnapshot_outcome s
    rw [refused] at outcome
    exact ⟨outcome, Defect.Violates.blames outcome⟩

/--
A map and the text of its only key. The table of the map and the units of the text have `empty`
slots too many.
-/
def hoard (empty : Nat) : Snapshot where
  nodes :=
    [⟨.classNode "java.util.HashMap" none none [], none, none⟩,
      ⟨.classNode "java.lang.String" none none [], none, none⟩,
      ⟨.plain ⟨0⟩ [⟨"size", .int 1, none⟩, ⟨"table", .ref ⟨3⟩, none⟩], none, none⟩,
      ⟨.array ⟨0⟩ (.ref ⟨4⟩ :: List.replicate empty .null), none, none⟩,
      ⟨.plain ⟨0⟩ [⟨"key", .ref ⟨5⟩, none⟩], none, none⟩,
      ⟨.plain ⟨1⟩ [⟨"value", .ref ⟨6⟩, none⟩, ⟨"count", .int 1, none⟩], none, none⟩,
      ⟨.array ⟨0⟩ (.char 0x61 :: List.replicate empty .null), none, none⟩]
  roots := []

theorem validNode_hoard (empty : Nat) (n : Node) (mem : n ∈ (hoard empty).nodes) :
    (hoard empty).ValidNode n := by
  have maps : (hoard empty).IsClass ⟨0⟩ := ⟨_, rfl, rfl⟩
  have texts : (hoard empty).IsClass ⟨1⟩ := ⟨_, rfl, rfl⟩
  have exist (i : UInt64) (low : i.toNat < 7) : (hoard empty).Exists ⟨i⟩ := low
  simp only [hoard, List.mem_cons, List.not_mem_nil, or_false] at mem
  rcases mem with rfl | rfl | rfl | rfl | rfl | rfl | rfl <;>
    constructor <;>
    simp [Shape.Names, Shape.classId?, Shape.superclass?, Shape.loader?, Shape.fields,
      Shape.elements, List.mem_replicate, or_imp, forall_and, maps, texts, exist]

theorem plain_of_mem_hoard {empty : Nat} (mem : n ∈ (hoard empty).nodes) :
    n.shape.superclass? = none ∧ n.address = none := by
  simp only [hoard, List.mem_cons, List.not_mem_nil, or_false] at mem
  rcases mem with rfl | rfl | rfl | rfl | rfl | rfl | rfl <;> exact ⟨rfl, rfl⟩

theorem addressOf_hoard {empty : Nat} (described : (hoard empty).Describes id n) :
    (Snapshot.addressOf id n).toNat = 0x10000000 + 16 * id.index := by
  have low : id.index < 7 := (List.getElem?_eq_some_iff.mp described).1
  rw [Snapshot.addressOf, (plain_of_mem_hoard (List.mem_of_getElem? described)).2,
    Option.getD_none, UInt64.toNat_ofNat']
  omega

theorem valid_hoard (empty : Nat) : (hoard empty).Valid where
  few := by simp [hoard]
  nodes _ n described := validNode_hoard empty n (List.mem_of_getElem? described)
  acyclic id cycle := by
    obtain ⟨_, ⟨n, described, given⟩, _⟩ := Relation.TransGen.head'_iff.mp cycle
    rw [(plain_of_mem_hoard (List.mem_of_getElem? described)).1] at given
    cases given
  roots_exist := nofun
  addresses_differ a b m n at_a at_b same := by
    have words := congrArg UInt64.toNat same
    rw [addressOf_hoard at_a, addressOf_hoard at_b] at words
    exact NodeId.ext_index (by omega)

/-- An array of 2^32 slots is told to have none. -/
theorem arrayLength_hoard :
    ∃ h n, ofSnapshot (hoard 4294967295) = .ok h ∧ (hoard 4294967295).Describes ⟨3⟩ n ∧
      n.shape.elements.length = 4294967296 ∧ h.store.arrayLength ⟨3⟩ = .ok (some 0) := by
  obtain ⟨h, accepted⟩ := exists_of_valid (valid_hoard 4294967295)
  have described : (hoard 4294967295).Describes ⟨3⟩
      ⟨.array ⟨0⟩ (.ref ⟨4⟩ :: List.replicate 4294967295 .null), none, none⟩ := rfl
  have count : (Cell.ref ⟨4⟩ :: List.replicate 4294967295 .null).length = 4294967296 := by
    rw [List.length_cons, List.length_replicate]
  obtain ⟨-, -, -, -, ⟨length, told, low⟩, -⟩ := tellsShape accepted described
  refine ⟨h, _, accepted, described, count, ?_⟩
  rw [count] at low
  rw [told, ← UInt32.ofNat_toNat (x := length), low]
  rfl

end Heap

end HeapLens
