import HeapLens.Heap.Basic
import HeapLens.Proofs.Heap.Hierarchy
import Mathlib.Tactic.ByContra

set_option autoImplicit false

namespace HeapLens

/-- Whether a description names a node as class, superclass or loader, or refers to it by a cell. -/
def Shape.Names (s : Shape) (id : NodeId) : Prop :=
  s.classId? = some id ∨ s.superclass? = some id ∨ s.loader? = some id ∨
    (∃ f ∈ s.fields, f.cell = .ref id) ∨ Cell.ref id ∈ s.elements

namespace Snapshot

/-- Whether the node of a number is described as `n`. -/
def Describes (s : Snapshot) (id : NodeId) (n : Node) : Prop := s.nodes[id.index]? = some n

def Exists (s : Snapshot) (id : NodeId) : Prop := id.index < s.nodes.length

def IsClass (s : Snapshot) (id : NodeId) : Prop :=
  ∃ n, s.Describes id n ∧ n.shape.kind = .classNode

/-- Whether the second node is the superclass of the first one. -/
def Extends (s : Snapshot) (id parent : NodeId) : Prop :=
  ∃ n, s.Describes id n ∧ n.shape.superclass? = some parent

/-- The address of a node, which without a given one depends on its number. -/
def addressOf (id : NodeId) (n : Node) : UInt64 :=
  n.address.getD (UInt64.ofNat (0x10000000 + 16 * id.index))

/-- What is asked of one node. -/
structure ValidNode (s : Snapshot) (n : Node) : Prop where
  names_exist : ∀ t, n.shape.Names t → s.Exists t
  class_isClass : ∀ c, n.shape.classId? = some c → s.IsClass c
  superclass_isClass : ∀ c, n.shape.superclass? = some c → s.IsClass c
  declarer_isClass : ∀ f ∈ n.shape.fields, ∀ c, f.declaredBy = some c → s.IsClass c

/-- What is asked of a snapshot. -/
structure Valid (s : Snapshot) : Prop where
  few : s.nodes.length < 4294967295
  nodes : ∀ id n, s.Describes id n → s.ValidNode n
  acyclic : ∀ id, ¬Relation.TransGen s.Extends id id
  roots_exist : ∀ r ∈ s.roots, s.Exists r
  addresses_differ : ∀ a b m n, s.Describes a m → s.Describes b n →
    addressOf a m = addressOf b n → a = b

end Snapshot

/-- Whether a snapshot has a defect. -/
def Defect.Violates (s : Snapshot) : Defect → Prop
  | .tooManyNodes count => count = s.nodes.length ∧ 4294967295 ≤ count
  | .missingNode node target => ∃ n, s.Describes node n ∧ n.shape.Names target ∧ ¬s.Exists target
  | .classNotClass node =>
    ∃ n c, s.Describes node n ∧ n.shape.classId? = some c ∧ s.Exists c ∧ ¬s.IsClass c
  | .superclassNotClass node =>
    ∃ n c, s.Describes node n ∧ n.shape.superclass? = some c ∧ s.Exists c ∧ ¬s.IsClass c
  | .declaredByNotClass node declarer =>
    ∃ n, s.Describes node n ∧ ∃ f ∈ n.shape.fields, f.declaredBy = some declarer ∧
      ¬s.IsClass declarer
  | .cyclicHierarchy node => Relation.TransGen s.Extends node node
  | .missingRoot root => root ∈ s.roots ∧ ¬s.Exists root
  | .sharedAddress address =>
    ∃ a b m n, a ≠ b ∧ s.Describes a m ∧ s.Describes b n ∧
      Snapshot.addressOf a m = address ∧ Snapshot.addressOf b n = address

theorem Defect.Violates.not_valid {s : Snapshot} {d : Defect} (h : d.Violates s) : ¬s.Valid := by
  intro valid
  cases d with
  | tooManyNodes count =>
    have := valid.few
    have := h.1
    have := h.2
    omega
  | missingNode node target =>
    obtain ⟨n, described, named, missing⟩ := h
    exact missing ((valid.nodes node n described).names_exist target named)
  | classNotClass node =>
    obtain ⟨n, c, described, named, _, other⟩ := h
    exact other ((valid.nodes node n described).class_isClass c named)
  | superclassNotClass node =>
    obtain ⟨n, c, described, named, _, other⟩ := h
    exact other ((valid.nodes node n described).superclass_isClass c named)
  | declaredByNotClass node declarer =>
    obtain ⟨n, described, f, mem, declared, other⟩ := h
    exact other ((valid.nodes node n described).declarer_isClass f mem declarer declared)
  | cyclicHierarchy node => exact valid.acyclic node h
  | missingRoot root => exact h.2 (valid.roots_exist root h.1)
  | sharedAddress address =>
    obtain ⟨a, b, m, n, ne, described, described', eq, eq'⟩ := h
    exact ne (valid.addresses_differ a b m n described described' (eq.trans eq'.symm))

namespace Heap

variable {s : Snapshot}

def recordsOfSnapshot (s : Snapshot) : Array Record := (recordsOf s.nodes).toArray

theorem getElem?_recordsOfSnapshot (s : Snapshot) (i : Nat) :
    (recordsOfSnapshot s)[i]? = s.nodes[i]?.map (complete (metaclass? s.nodes) i) := by
  rw [recordsOfSnapshot, List.getElem?_toArray, recordsOf, List.getElem?_map,
    List.getElem?_zipIdx]
  cases s.nodes[i]? <;> simp

theorem size_recordsOfSnapshot (s : Snapshot) :
    (recordsOfSnapshot s).size = s.nodes.length := by
  simp [recordsOfSnapshot, recordsOf]

theorem isClass_iff (s : Snapshot) (id : NodeId) :
    isClass (recordsOfSnapshot s) id = true ↔ s.IsClass id := by
  rw [isClass, getElem?_recordsOfSnapshot, Snapshot.IsClass]
  simp only [Snapshot.Describes]
  cases s.nodes[id.index]? with
  | none => simp
  | some n =>
    rw [Option.map_some]
    constructor
    · intro h
      exact ⟨n, rfl, of_decide_eq_true h⟩
    · rintro ⟨m, eq, h⟩
      obtain rfl := Option.some.inj eq
      exact decide_eq_true h

theorem mem_references {r : Record} {self t : NodeId} :
    t ∈ r.references self ↔
      (t = r.classId ∧ t ≠ self) ∨ r.shape.superclass? = some t ∨ r.shape.loader? = some t ∨
        (∃ f ∈ r.shape.fields, f.cell = .ref t) ∨ Cell.ref t ∈ r.shape.elements := by
  have ref_iff (c : Cell) : c.ref? = some t ↔ c = .ref t := by
    cases c <;> simp [Cell.ref?]
  have classes : t ∈ (if r.classId = self then [] else [r.classId]) ↔
      t = r.classId ∧ t ≠ self := by
    split
    · rename_i eq
      simp only [List.not_mem_nil, false_iff]
      exact fun h => h.2 (h.1.trans eq)
    · rename_i ne
      simp only [List.mem_singleton]
      exact ⟨fun h => ⟨h, h ▸ ne⟩, And.left⟩
  simp only [Record.references, List.mem_append, classes, Option.mem_toList,
    List.mem_filterMap, ref_iff, or_assoc, exists_eq_right]

theorem metaclass?_eq_some {c : NodeId} (few : s.nodes.length < 4294967295)
    (h : metaclass? s.nodes = some c) :
    (∃ n, s.Describes c n ∧ n.shape.className? = some metaclassName) ∧
      ∀ i < c.index, ∀ n, s.nodes[i]? = some n → n.shape.className? ≠ some metaclassName := by
  obtain ⟨i, found, rfl⟩ := Option.map_eq_some_iff.mp h
  obtain ⟨bound, named, before⟩ := List.findIdx?_eq_some_iff_getElem.mp found
  have index_eq : (NodeId.ofIndex i).index = i :=
    NodeId.index_ofIndex (by simp only [UInt64.size]; omega)
  rw [index_eq]
  refine ⟨⟨s.nodes[i], ?_, by simpa using named⟩, ?_⟩
  · rw [Snapshot.Describes, index_eq, List.getElem?_eq_getElem bound]
  · intro j lt n described
    obtain ⟨_, rfl⟩ := List.getElem?_eq_some_iff.mp described
    simpa using before j lt

theorem kind_of_className {shape : Shape} {name : String} (h : shape.className? = some name) :
    shape.kind = .classNode := by
  cases shape <;> simp_all [Shape.className?, Shape.kind]

theorem kind_of_classId_eq_none {shape : Shape} (h : shape.classId? = none) :
    shape.kind = .classNode := by
  cases shape <;> simp_all [Shape.classId?, Shape.kind]

theorem isClass_classId (few : s.nodes.length < 4294967295) {id : NodeId} {n : Node}
    (described : s.Describes id n) (isClassNode : n.shape.classId? = none) :
    s.IsClass (complete (metaclass? s.nodes) id.index n).classId := by
  simp only [complete, isClassNode, Option.getD_none]
  cases found : metaclass? s.nodes with
  | none =>
    rw [Option.getD_none, NodeId.ofIndex_index]
    exact ⟨n, described, kind_of_classId_eq_none isClassNode⟩
  | some c =>
    obtain ⟨m, described', named⟩ := (metaclass?_eq_some few found).1
    exact ⟨m, described', kind_of_className named⟩

theorem exists_of_describes {id : NodeId} {n : Node} (described : s.Describes id n) :
    s.Exists id :=
  (List.getElem?_eq_some_iff.mp described).1

theorem exists_of_isClass {id : NodeId} (h : s.IsClass id) : s.Exists id := by
  obtain ⟨n, described, _⟩ := h
  exact exists_of_describes described

theorem mem_references_of_names {m : Option NodeId} {id t : NodeId} {n : Node}
    (h : n.shape.Names t) : t ∈ (complete m id.index n).references id ∨ t = id := by
  rw [mem_references]
  rcases h with given | rest
  · by_cases eq : t = id
    · exact .inr eq
    · exact .inl (.inl ⟨by simp [complete, given], eq⟩)
  · exact .inl (.inr rest)

theorem names_of_mem_references (few : s.nodes.length < 4294967295) {id t : NodeId} {n : Node}
    (described : s.Describes id n)
    (h : t ∈ (complete (metaclass? s.nodes) id.index n).references id) :
    n.shape.Names t ∨ s.IsClass t := by
  rcases mem_references.mp h with ⟨eq, _⟩ | rest
  · cases given : n.shape.classId? with
    | none => exact .inr (eq ▸ isClass_classId few described given)
    | some c => exact .inl (.inl (by simp [given, eq, complete]))
  · exact .inl (.inr rest)

theorem size_le_iff_not_exists (s : Snapshot) (t : NodeId) :
    (recordsOfSnapshot s).size ≤ t.index ↔ ¬s.Exists t := by
  rw [size_recordsOfSnapshot, Snapshot.Exists, Nat.not_lt]

theorem not_isClass_iff (s : Snapshot) (c : NodeId) :
    (!isClass (recordsOfSnapshot s) c) = true ↔ ¬s.IsClass c := by
  rw [← isClass_iff, Bool.not_eq_true', Bool.not_eq_true]

theorem exists_of_names {id : NodeId} {n : Node} (described : s.Describes id n)
    (none_found : ((complete (metaclass? s.nodes) id.index n).references id).find?
      (fun t => (recordsOfSnapshot s).size ≤ t.index) = none) {t : NodeId}
    (named : n.shape.Names t) : s.Exists t := by
  have mem_or_self : t ∈ (complete (metaclass? s.nodes) id.index n).references id ∨ t = id :=
    mem_references_of_names named
  rcases mem_or_self with mem | rfl
  · by_contra out
    exact List.find?_eq_none.mp none_found t mem
      (decide_eq_true ((size_le_iff_not_exists s t).mpr out))
  · exact exists_of_describes described

/-- What the checks of one node report is wrong with it, and otherwise nothing is. -/
theorem nodeDefect?_outcome (few : s.nodes.length < 4294967295) {id : NodeId} {n : Node}
    (described : s.Describes id n) :
    Search (Defect.Violates s) (s.ValidNode n)
      (nodeDefect? (recordsOfSnapshot s) id (complete (metaclass? s.nodes) id.index n)) := by
  unfold nodeDefect?
  cases missing : ((complete (metaclass? s.nodes) id.index n).references id).find?
      fun t => (recordsOfSnapshot s).size ≤ t.index with
  | some t =>
    have beyond := List.find?_some missing
    have out := (size_le_iff_not_exists s t).mp (of_decide_eq_true beyond)
    rcases names_of_mem_references few described (List.mem_of_find?_eq_some missing) with
      named | isClass
    · exact ⟨n, described, named, out⟩
    · exact absurd (exists_of_isClass isClass) out
  | none =>
    have names_exist {t : NodeId} (named : n.shape.Names t) : s.Exists t :=
      exists_of_names described missing named
    have class_eq {c : NodeId} (given : n.shape.classId? = some c) :
        (complete (metaclass? s.nodes) id.index n).classId = c := by
      simp [complete, given]
    dsimp only
    by_cases badClass :
        (!isClass (recordsOfSnapshot s) (complete (metaclass? s.nodes) id.index n).classId) = true
    · rw [if_pos badClass]
      rw [not_isClass_iff] at badClass
      cases given : n.shape.classId? with
      | none => exact absurd (isClass_classId few described given) badClass
      | some c =>
        exact ⟨n, c, described, given, names_exist (.inl given), class_eq given ▸ badClass⟩
    · rw [if_neg badClass]
      rw [not_isClass_iff, not_not] at badClass
      by_cases badParent : (complete (metaclass? s.nodes) id.index n).shape.superclass?.any
          (!isClass (recordsOfSnapshot s) ·) = true
      · rw [if_pos badParent]
        obtain ⟨c, given, bad⟩ := (Option.any_eq_true _ _).mp badParent
        exact ⟨n, c, described, given, names_exist (.inr (.inl given)),
          (not_isClass_iff s c).mp bad⟩
      · rw [if_neg badParent]
        have declarers := Search.find? (!isClass (recordsOfSnapshot s) ·)
          (n.shape.fields.filterMap (·.declaredBy))
        refine (declarers.map _ fun c found => ?_).mono (fun _ bad => bad) fun all => ?_
        · obtain ⟨mem, bad⟩ := found
          obtain ⟨f, mem, declared⟩ := List.mem_filterMap.mp mem
          exact ⟨n, described, f, mem, declared, (not_isClass_iff s c).mp bad⟩
        · refine
            { names_exist := fun t => names_exist
              class_isClass := fun c given => class_eq given ▸ badClass
              superclass_isClass := fun c given => ?_
              declarer_isClass := fun f mem c declared => ?_ }
          · by_contra bad
            exact badParent ((Option.any_eq_true _ _).mpr ⟨c, given, (not_isClass_iff s c).mpr bad⟩)
          · by_contra bad
            exact all c (List.mem_filterMap.mpr ⟨f, mem, declared⟩) ((not_isClass_iff s c).mpr bad)

theorem exists_describes (few : s.nodes.length < 4294967295) {i : Nat} {n : Node}
    (h : s.nodes[i]? = some n) : ∃ id : NodeId, id.index = i ∧ s.Describes id n := by
  have bound := (List.getElem?_eq_some_iff.mp h).1
  have index_eq : (NodeId.ofIndex i).index = i :=
    NodeId.index_ofIndex (by simp only [UInt64.size]; omega)
  exact ⟨.ofIndex i, index_eq, by rw [Snapshot.Describes, index_eq, h]⟩

theorem step_parentIndex_iff {records : Array Record} {v w : Nat} :
    Hierarchy.Step (parentIndex records) v w ↔
      ∃ r id, records[v]? = some r ∧ r.shape.superclass? = some id ∧ id.index = w := by
  rw [Hierarchy.Step, parentIndex, Option.bind_eq_some_iff]
  simp only [Option.map_eq_some_iff]
  constructor
  · rintro ⟨r, found, id, given, index_eq⟩
    exact ⟨r, id, found, given, index_eq⟩
  · rintro ⟨r, id, found, given, index_eq⟩
    exact ⟨r, found, id, given, index_eq⟩

theorem step_iff (few : s.nodes.length < 4294967295) {i : Nat} {w : Nat} :
    Hierarchy.Step (parentIndex (recordsOfSnapshot s)) i w ↔
      ∃ id parent, id.index = i ∧ parent.index = w ∧ s.Extends id parent := by
  constructor
  · intro h
    obtain ⟨r, parent, found, given, rfl⟩ := step_parentIndex_iff.mp h
    rw [getElem?_recordsOfSnapshot] at found
    obtain ⟨n, described, rfl⟩ := Option.map_eq_some_iff.mp found
    obtain ⟨id, index_eq, described⟩ := exists_describes few described
    exact ⟨id, parent, index_eq, rfl, n, described, given⟩
  · rintro ⟨id, parent, rfl, rfl, n, described, given⟩
    have found := getElem?_recordsOfSnapshot s id.index
    rw [described, Option.map_some] at found
    exact step_parentIndex_iff.mpr ⟨_, parent, found, given, rfl⟩

theorem step_of_extends (few : s.nodes.length < 4294967295) {a b : NodeId} (h : s.Extends a b) :
    Hierarchy.Step (parentIndex (recordsOfSnapshot s)) a.index b.index :=
  (step_iff few).mpr ⟨a, b, rfl, rfl, h⟩

theorem extends_of_onCycle (few : s.nodes.length < 4294967295) {v : Nat}
    (h : Hierarchy.OnCycle (parentIndex (recordsOfSnapshot s)) v) :
    Relation.TransGen s.Extends (.ofIndex v) (.ofIndex v) := by
  refine h.lift NodeId.ofIndex ?_
  intro i w edge
  obtain ⟨id, parent, rfl, rfl, extended⟩ := (step_iff few).mp edge
  simpa [Function.onFun] using extended

theorem parentIndex_lt (few : s.nodes.length < 4294967295)
    (nodes : ∀ id n, s.Describes id n → s.ValidNode n) (u w : Nat)
    (edge : parentIndex (recordsOfSnapshot s) u = some w) : w < (recordsOfSnapshot s).size := by
  obtain ⟨id, parent, rfl, rfl, n, described, given⟩ := (step_iff few).mp edge
  rw [size_recordsOfSnapshot]
  exact (nodes id n described).names_exist parent (.inr (.inl given))

theorem findCycle_recordsOfSnapshot (few : s.nodes.length < 4294967295)
    (nodes : ∀ id n, s.Describes id n → s.ValidNode n) :
    Search (fun v => Relation.TransGen s.Extends (.ofIndex v) (.ofIndex v))
      (∀ id, ¬Relation.TransGen s.Extends id id)
      (Hierarchy.findCycle (parentIndex (recordsOfSnapshot s)) (recordsOfSnapshot s).size) := by
  have outcome := Hierarchy.findCycle_outcome fun u w edge _ => parentIndex_lt few nodes u w edge
  refine outcome.mono (fun v => extends_of_onCycle few) fun ends id cycle => ?_
  obtain ⟨parent, ⟨n, described, _⟩, _⟩ := Relation.TransGen.head'_iff.mp cycle
  have bound : id.index < (recordsOfSnapshot s).size := by
    rw [size_recordsOfSnapshot]
    exact exists_of_describes described
  apply (ends id.index bound).not_onCycle
  exact cycle.lift NodeId.index fun a b extended => step_of_extends few extended

theorem sharedAddress?_outcome (earlier l : List UInt64) :
    Search (fun a => ∃ l₁ l₂, l = l₁ ++ a :: l₂ ∧ (a ∈ earlier ∨ a ∈ l₁))
      (l.Nodup ∧ ∀ a ∈ l, a ∉ earlier) (sharedAddress? earlier l) := by
  induction l generalizing earlier with
  | nil => exact ⟨List.nodup_nil, fun a mem => absurd mem List.not_mem_nil⟩
  | cons a l ih =>
    rw [sharedAddress?]
    by_cases mem : a ∈ earlier
    · rw [if_pos mem]
      exact ⟨[], l, rfl, .inl mem⟩
    · rw [if_neg mem]
      have rest := ih (a :: earlier)
      revert rest
      cases sharedAddress? (a :: earlier) l with
      | some b =>
        rintro ⟨l₁, l₂, rfl, old | new⟩
        · rcases List.mem_cons.mp old with rfl | old
          · exact ⟨b :: l₁, l₂, rfl, .inr List.mem_cons_self⟩
          · exact ⟨a :: l₁, l₂, rfl, .inl old⟩
        · exact ⟨a :: l₁, l₂, rfl, .inr (List.mem_cons_of_mem a new)⟩
      | none =>
        rintro ⟨nodup, apart⟩
        refine ⟨List.nodup_cons.mpr ⟨fun h => apart a h List.mem_cons_self, nodup⟩, ?_⟩
        intro b hb
        rcases List.mem_cons.mp hb with rfl | hb
        · exact mem
        · exact fun old => apart b hb (List.mem_cons_of_mem a old)

theorem address_complete (m : Option NodeId) (id : NodeId) (n : Node) :
    (complete m id.index n).address = Snapshot.addressOf id n := by
  simp only [complete, Snapshot.addressOf, baseAddress]
  rw [UInt64.ofNat_add]
  rfl

theorem getElem?_addresses (s : Snapshot) (i : Nat) :
    ((recordsOfSnapshot s).toList.map (·.address))[i]? =
      s.nodes[i]?.map fun n => (complete (metaclass? s.nodes) i n).address := by
  rw [List.getElem?_map, Array.getElem?_toList, getElem?_recordsOfSnapshot, Option.map_map]
  rfl

theorem exists_of_address (few : s.nodes.length < 4294967295) {i : Nat} {a : UInt64}
    (h : ((recordsOfSnapshot s).toList.map (·.address))[i]? = some a) :
    ∃ id n, id.index = i ∧ s.Describes id n ∧ Snapshot.addressOf id n = a := by
  rw [getElem?_addresses] at h
  obtain ⟨n, found, rfl⟩ := Option.map_eq_some_iff.mp h
  obtain ⟨id, rfl, described⟩ := exists_describes few found
  exact ⟨id, n, rfl, described, (address_complete _ id n).symm⟩

theorem sharedAddress?_recordsOfSnapshot (few : s.nodes.length < 4294967295) :
    Search (fun a => Defect.Violates s (.sharedAddress a))
      (∀ a b m n, s.Describes a m → s.Describes b n →
        Snapshot.addressOf a m = Snapshot.addressOf b n → a = b)
      (sharedAddress? [] ((recordsOfSnapshot s).toList.map (·.address))) := by
  have outcome := sharedAddress?_outcome [] ((recordsOfSnapshot s).toList.map (·.address))
  have place {id : NodeId} {n : Node} (described : s.Describes id n) :
      ((recordsOfSnapshot s).toList.map (·.address))[id.index]? =
        some (Snapshot.addressOf id n) := by
    rw [getElem?_addresses, described, Option.map_some, address_complete]
  revert outcome
  cases sharedAddress? [] ((recordsOfSnapshot s).toList.map (·.address)) with
  | some address =>
    rintro ⟨l₁, l₂, eq, mem⟩
    have mem := mem.resolve_left List.not_mem_nil
    obtain ⟨i, low, at_i⟩ := List.getElem_of_mem mem
    have first : ((recordsOfSnapshot s).toList.map (·.address))[i]? = some address := by
      rw [eq, List.getElem?_append_left low, List.getElem?_eq_getElem low, at_i]
    have second : ((recordsOfSnapshot s).toList.map (·.address))[l₁.length]? = some address := by
      rw [eq, List.getElem?_append_right (Nat.le_refl _), Nat.sub_self, List.getElem?_cons_zero]
    obtain ⟨a, m, index_a, described, address_a⟩ := exists_of_address few first
    obtain ⟨b, n, index_b, described', address_b⟩ := exists_of_address few second
    refine ⟨a, b, m, n, ?_, described, described', address_a, address_b⟩
    rintro rfl
    omega
  | none =>
    rintro ⟨nodup, _⟩ a b m n described described' same
    apply NodeId.ext_index
    have bound := (List.getElem?_eq_some_iff.mp (place described)).1
    exact (List.getElem?_inj bound nodup).mp ((place described).trans (same ▸ (place described').symm))

theorem findSome?_nodeDefect? (few : s.nodes.length < 4294967295) :
    Search (·.Violates s) (∀ id n, s.Describes id n → s.ValidNode n)
      ((recordsOfSnapshot s).toList.zipIdx.findSome?
        fun (r, i) => nodeDefect? (recordsOfSnapshot s) (.ofIndex i) r) := by
  cases found : (recordsOfSnapshot s).toList.zipIdx.findSome?
      fun (r, i) => nodeDefect? (recordsOfSnapshot s) (.ofIndex i) r with
  | some d =>
    obtain ⟨⟨r, i⟩, mem, report⟩ := List.exists_of_findSome?_eq_some found
    have place : (recordsOfSnapshot s).toList[i]? = some r :=
      List.mem_zipIdx_iff_getElem?.mp mem
    rw [Array.getElem?_toList, getElem?_recordsOfSnapshot] at place
    obtain ⟨n, described, rfl⟩ := Option.map_eq_some_iff.mp place
    obtain ⟨id, rfl, described⟩ := exists_describes few described
    have outcome := nodeDefect?_outcome few described
    simp only [NodeId.ofIndex_index] at report
    rw [report] at outcome
    exact outcome
  | none =>
    intro id n described
    have place : (complete (metaclass? s.nodes) id.index n, id.index) ∈
        (recordsOfSnapshot s).toList.zipIdx := by
      rw [List.mem_zipIdx_iff_getElem?, Array.getElem?_toList, getElem?_recordsOfSnapshot,
        described]
      rfl
    have outcome := nodeDefect?_outcome few described
    have silent := List.findSome?_eq_none_iff.mp found _ place
    simp only [NodeId.ofIndex_index] at silent
    rw [silent] at outcome
    exact outcome

theorem roots_outcome (s : Snapshot) :
    Search (Defect.Violates s) (∀ r ∈ s.roots, s.Exists r)
      ((s.roots.find? fun root => (recordsOfSnapshot s).size ≤ root.index).map .missingRoot) := by
  cases found : s.roots.find? fun root => (recordsOfSnapshot s).size ≤ root.index with
  | some root =>
    have beyond := List.find?_some found
    exact ⟨List.mem_of_find?_eq_some found,
      (size_le_iff_not_exists s root).mp (of_decide_eq_true beyond)⟩
  | none =>
    intro root mem
    by_contra out
    exact List.find?_eq_none.mp found root mem
      (decide_eq_true ((size_le_iff_not_exists s root).mpr out))

theorem defect?_outcome (s : Snapshot) :
    Search (Defect.Violates s) s.Valid (defect? (recordsOfSnapshot s) s.roots) := by
  have count := size_recordsOfSnapshot s
  rw [defect?]
  by_cases many : nodeLimit ≤ (recordsOfSnapshot s).size
  · rw [if_pos many]
    exact ⟨count, many⟩
  · rw [if_neg many]
    have few : s.nodes.length < 4294967295 := by
      rw [← count]
      exact Nat.lt_of_not_le many
    refine (findSome?_nodeDefect? few).orElse fun nodes => ?_
    refine ((findCycle_recordsOfSnapshot few nodes).map _ fun _ => id).orElse fun acyclic => ?_
    refine (roots_outcome s).orElse fun roots => ?_
    have addresses := (sharedAddress?_recordsOfSnapshot few).map Defect.sharedAddress fun _ => id
    cases shared : sharedAddress? [] ((recordsOfSnapshot s).toList.map (·.address)) with
    | some a =>
      rw [shared] at addresses
      exact addresses
    | none =>
      rw [shared] at addresses
      exact ⟨few, nodes, acyclic, roots, addresses⟩

theorem ofSnapshot_outcome (s : Snapshot) :
    Outcome (fun h => s.Valid ∧ h = assemble (recordsOfSnapshot s) s.roots) (Defect.Violates s)
      (ofSnapshot s) := by
  have outcome := defect?_outcome s
  rw [recordsOfSnapshot] at outcome ⊢
  cases found : defect? (recordsOf s.nodes).toArray s.roots with
  | some d =>
    rw [found] at outcome
    simp only [ofSnapshot, found]
    exact outcome
  | none =>
    rw [found] at outcome
    simp only [ofSnapshot, found]
    exact ⟨outcome, rfl⟩

theorem ends_of_valid (valid : s.Valid) {id : NodeId} (existing : s.Exists id) :
    Hierarchy.Ends (parentIndex (recordsOfSnapshot s)) id.index := by
  have outcome := Hierarchy.findCycle_outcome
    fun u w edge (_ : u < (recordsOfSnapshot s).size) =>
      parentIndex_lt valid.few valid.nodes u w edge
  revert outcome
  cases Hierarchy.findCycle (parentIndex (recordsOfSnapshot s)) (recordsOfSnapshot s).size with
  | some v =>
    intro cycle
    exact absurd (extends_of_onCycle valid.few cycle) (valid.acyclic _)
  | none =>
    intro ends
    exact ends id.index (size_recordsOfSnapshot s ▸ existing)

end Heap

end HeapLens
