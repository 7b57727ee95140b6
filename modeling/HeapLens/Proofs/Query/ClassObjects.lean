import HeapLens.Proofs.Collection.Recognition
import HeapLens.Proofs.Heap.Answers
import HeapLens.Proofs.Query.Lookup
import HeapLens.Proofs.Query.StringText

set_option autoImplicit false

namespace HeapLens

variable {c : Catalog} {session : Session} {place : Nat} {s : Snapshot} {h : Heap} {x : Handle}
  {l : Library} {n d : NodeId} {r : Record} {chain : List NodeId} {name : String}

namespace Catalog

def names (c : Catalog) : List String := c.entries.map Prod.fst

theorem lookup_eq_none_iff : c.lookup name = none ↔ name ∉ c.names := by
  rw [lookup, List.lookup_eq_none_iff, names, List.mem_map]
  grind

end Catalog

namespace Heap

/-- Whether a class, or one that it is derived from, has one of the names. -/
def DescendsFrom (h : Heap) (d : NodeId) (names : List String) : Prop :=
  ∃ chain, h.Lineage d chain ∧ ∃ e ∈ chain, ∃ name ∈ names, h.IsNamed e name

theorem isNamed_iff : h.IsNamed d name ↔ h.nameOf? d = some name := by
  rw [IsNamed, nameOf?]
  constructor
  · rintro ⟨superclass, loader, statics, shape⟩
    rw [shape]
    rfl
  · intro named
    obtain ⟨shape, at_d, eq⟩ := Option.bind_eq_some_iff.mp named
    cases shape <;> simp_all [Shape.className?]

theorem IsNamed.unique {name' : String} (named : h.IsNamed d name) (named' : h.IsNamed d name') :
    name = name' :=
  Option.some.inj ((isNamed_iff.mp named).symm.trans (isNamed_iff.mp named'))

theorem isNamed_iff_of_ofSnapshot (accepted : ofSnapshot s = .ok h) :
    h.IsNamed d name ↔ s.IsNamed name d := by
  rw [isNamed_iff, nameOf?, Option.bind_eq_some_iff]
  constructor
  · rintro ⟨shape, at_d, named⟩
    obtain ⟨r, held, rfl⟩ := Option.map_eq_some_iff.mp at_d
    obtain ⟨n, described, rfl⟩ := (holds_iff accepted).mp held
    exact ⟨n, described, named⟩
  · rintro ⟨n, described, named⟩
    exact ⟨n.shape, shape?_of_describes accepted described, named⟩

theorem nearest?_eq_none_iff (lineage : h.Lineage d chain) :
    c.nearest? h chain = none ↔ ¬h.DescendsFrom d c.names := by
  rw [Catalog.nearest?, List.findSome?_eq_none_iff]
  simp only [Option.bind_eq_none_iff, Catalog.lookup_eq_none_iff, ← isNamed_iff]
  constructor
  · rintro unnamed ⟨chain', lineage', e, mem, name, known, named⟩
    rw [lineage'.unique lineage] at mem
    exact unnamed e mem name named known
  · intro apart e mem name named known
    exact apart ⟨chain, lineage, e, mem, name, known, named⟩

theorem exists_class_of_class (accepted : ofSnapshot s = .ok h) (isClass : h.HasClass n) :
    ∃ r, h.Holds n r ∧ (h.IsNamed r.classId Heap.metaclassName ∨
      (∀ m, ¬h.IsNamed m Heap.metaclassName) ∧ r.classId = n) := by
  obtain ⟨r, held, kind⟩ := isClass
  refine ⟨r, held, ?_⟩
  obtain ⟨d, described, rfl⟩ := (holds_iff accepted).mp held
  have ungiven : d.shape.classId? = none := by
    change d.shape.kind = .classNode at kind
    cases shape : d.shape <;> simp_all [Shape.kind, Shape.classId?]
  simp only [isNamed_iff_of_ofSnapshot accepted]
  exact (classOfClass_complete (valid_of_ofSnapshot accepted).1.few ungiven).imp_left And.left

end Heap

/-- Whether a node is read as an object that is no collection and no string. -/
structure Library.TakesForPlain (l : Library) (session : Session) (h : Heap) (x : Handle) :
    Prop where
  unassigned : l.catalog.strategyOf h.store x.node = .ok none
  size : l.invoke session "getSize" [.handle x] = .ok (.integer (-1))
  sequence : l.catalog.sequence? session x = .ok none
  map : l.catalog.map? session x = .ok none
  value : ∀ key, l.invoke session "getByKey" [.handle x, .text key] = .ok .null
  content : ∀ limit, l.invoke session "getStringContent" [.handle x, .integer limit] = .ok .null
  shown : ∃ name address, h.typeName? x.node = some name ∧
    h.store.address x.node = .ok address ∧
    l.invoke session "toString" [.handle x] = .ok (.text (name ++ "@" ++ Text.address address))

theorem Heap.string?_eq_none_iff (type_eq : h.typeName? n = some name) :
    h.string? n = none ↔ name ∉ stringClasses := by
  simp [string?, type_eq]

theorem Heap.box?_of_hasClass (isClass : h.HasClass n) : h.box? n = none := by
  obtain ⟨name, superclass, loader, statics, shape⟩ := hasClass_iff.mp isClass
  have empty (name : String) : h.field? n name = none := by
    rw [field?, fieldsOf, shape]
    rfl
  simp [box?, empty]

/-- How a class is read depends on its class alone. -/
theorem Session.Opens.takesForPlain_iff (opens : session.Opens place h)
    (within : x.Within place h) (isClass : h.HasClass x.node) (held : h.Holds x.node r)
    (named : h.IsNamed r.classId name) :
    l.TakesForPlain session h x ↔
      ¬h.DescendsFrom r.classId l.catalog.names ∧ name ∉ stringClasses := by
  obtain ⟨chain, lineage, -⟩ := opens.sound.exists_lineage (opens.sound.class_isClass _ _ held)
  have known : l.catalog.strategyOf h.store x.node = .ok (l.catalog.nearest? h chain) :=
    Catalog.strategyOf_eq opens.sound held lineage
  have type_eq := (Heap.typeName?_of_holds held).trans (Heap.isNamed_iff.mp named)
  rw [← Heap.nearest?_eq_none_iff lineage, ← Heap.string?_eq_none_iff type_eq]
  constructor
  · intro plain
    refine ⟨Except.ok.inj (known.symm.trans plain.unassigned), ?_⟩
    have content := plain.content 0
    rw [Library.invoke_stringContent, opens.stringContent_eq within] at content
    cases read : h.string? x.node with
    | none => rfl
    | some text =>
      rw [read] at content
      cases content
  · rintro ⟨unassigned, no_string⟩
    rw [unassigned] at known
    have other : r.kind ≠ .array := by
      obtain ⟨r', held', kind⟩ := isClass
      rw [Option.some.inj (held.symm.trans held'), kind]
      decide
    have sequence_eq := opens.sequence?_of_none within held known
    have size_eq := opens.sizeOf_of_none within held known
    rw [if_neg other] at sequence_eq size_eq
    have map_eq := opens.map?_of_none within known
    have shown := opens.display_of_plain within no_string (Heap.box?_of_hasClass isClass)
    refine ⟨known, ?_, sequence_eq, map_eq, fun key => ?_, fun limit => ?_, ?_⟩
    · rw [Library.invoke_size, size_eq]
      rfl
    · rw [Library.invoke_valueAt, Catalog.valueAt, map_eq]
      rfl
    · rw [Library.invoke_stringContent, opens.stringContent_eq within, no_string]
      rfl
    · simpa only [Library.invoke_display] using shown

/--
Where the heap has a class of classes that is no collection and no string, all classes are read as
plain objects. Where it has none, a class is read as its own objects are, so it is plain only if they
are.
-/
theorem classes_are_plain_objects (accepted : Heap.ofSnapshot s = .ok h)
    (opened : session.storeAt place = .ok h.store) (within : x.Within place h)
    (builtin : l.catalog = .builtin) (isClass : h.HasClass x.node)
    (ordinary : ∀ m, h.IsNamed m Heap.metaclassName →
      ¬h.DescendsFrom m (Catalog.builtin.names ++ stringClasses)) :
    l.TakesForPlain session h x ↔
      (∃ m, h.IsNamed m Heap.metaclassName) ∨
        ¬h.DescendsFrom x.node Catalog.builtin.names ∧
          ∀ name ∈ stringClasses, ¬h.IsNamed x.node name := by
  have opens : session.Opens place h := ⟨Heap.sound_of_ofSnapshot accepted, opened⟩
  obtain ⟨r, held, class_of_class⟩ := Heap.exists_class_of_class accepted isClass
  rcases class_of_class with metaclass | ⟨none_named, own⟩
  · have apart : ¬h.DescendsFrom r.classId Catalog.builtin.names := by
      rintro ⟨chain, lineage, e, mem, name, known, named⟩
      exact ordinary _ metaclass
        ⟨chain, lineage, e, mem, name, List.mem_append_left _ known, named⟩
    rw [opens.takesForPlain_iff within isClass held metaclass, builtin]
    exact iff_of_true ⟨apart, by decide +kernel⟩ (.inl ⟨_, metaclass⟩)
  · obtain ⟨name, superclass, loader, statics, shape⟩ := Heap.hasClass_iff.mp isClass
    have named : h.IsNamed x.node name := ⟨superclass, loader, statics, shape⟩
    rw [opens.takesForPlain_iff within isClass held (own ▸ named), builtin, own]
    have no_metaclass : ¬∃ m, h.IsNamed m Heap.metaclassName := fun ⟨m, metaclass⟩ =>
      none_named m metaclass
    rw [or_iff_right no_metaclass]
    refine and_congr_right fun _ => ?_
    constructor
    · rintro no_string other string named'
      exact no_string (named'.unique named ▸ string)
    · exact fun no_string string => no_string name string named

def mirrors : Snapshot where
  nodes :=
    [⟨.classNode "java.lang.Class" none none [], none, none⟩,
      ⟨.classNode "java.util.ArrayList" none none [], none, none⟩,
      ⟨.classNode "java.lang.String" none none [], none, none⟩]
  roots := []

def mirrorsHeap : Heap := Heap.assemble (Heap.recordsOfSnapshot mirrors) mirrors.roots

def mirrorsSession : Session := Session.empty.opening mirrorsHeap.store

theorem ofSnapshot_mirrors : Heap.ofSnapshot mirrors = .ok mirrorsHeap :=
  Heap.ofSnapshot_of_defect? (by decide +kernel)

theorem within_mirrors {i : UInt64} (few : i.toNat < 3) : Handle.Within ⟨0, ⟨i⟩⟩ 0 mirrorsHeap :=
  ⟨rfl, (Heap.has_iff_of_ofSnapshot ofSnapshot_mirrors).mpr few⟩

theorem isNamed_mirrors : mirrorsHeap.IsNamed ⟨0⟩ Heap.metaclassName :=
  (Heap.isNamed_iff_of_ofSnapshot ofSnapshot_mirrors).mpr ⟨_, rfl, rfl⟩

theorem ordinary_mirrors (m : NodeId) (named : mirrorsHeap.IsNamed m Heap.metaclassName) :
    ¬mirrorsHeap.DescendsFrom m (Catalog.builtin.names ++ stringClasses) := by
  rintro ⟨chain, lineage, e, mem, name, known, named'⟩
  have root : mirrorsHeap.Lineage m [m] := by
    obtain ⟨n, described, eq⟩ := (Heap.isNamed_iff_of_ofSnapshot ofSnapshot_mirrors).mp named
    have shape := Heap.shape?_of_describes ofSnapshot_mirrors described
    have roots : ∀ n ∈ mirrors.nodes, n.shape.superclass? = none := by decide
    have top := roots n (List.mem_of_getElem? described)
    cases shape_eq : n.shape with
    | classNode name superclass loader statics =>
      rw [shape_eq] at top shape
      obtain rfl : superclass = none := top
      exact .root shape
    | _ => simp [shape_eq, Shape.className?] at eq
  rw [lineage.unique root, List.mem_singleton] at mem
  subst mem
  obtain rfl := named'.unique named
  exact absurd known (by decide +kernel)

theorem classes_mirrors :
    Heap.ofSnapshot mirrors = .ok mirrorsHeap ∧
      mirrorsSession.storeAt 0 = .ok mirrorsHeap.store ∧
      knotLibrary.TakesForPlain mirrorsSession mirrorsHeap ⟨0, ⟨1⟩⟩ ∧
      knotLibrary.TakesForPlain mirrorsSession mirrorsHeap ⟨0, ⟨2⟩⟩ := by
  have opened : mirrorsSession.storeAt 0 = .ok mirrorsHeap.store := rfl
  have list : mirrorsHeap.HasClass ⟨1⟩ := ⟨_, rfl, rfl⟩
  have string : mirrorsHeap.HasClass ⟨2⟩ := ⟨_, rfl, rfl⟩
  refine ⟨ofSnapshot_mirrors, opened, ?_, ?_⟩
  · exact (classes_are_plain_objects ofSnapshot_mirrors opened (within_mirrors (by decide))
      (l := knotLibrary) rfl list ordinary_mirrors).mpr (.inl ⟨_, isNamed_mirrors⟩)
  · exact (classes_are_plain_objects ofSnapshot_mirrors opened (within_mirrors (by decide))
      (l := knotLibrary) rfl string ordinary_mirrors).mpr (.inl ⟨_, isNamed_mirrors⟩)

def orphans : Snapshot := { mirrors with nodes := mirrors.nodes.tail }

def orphansHeap : Heap := Heap.assemble (Heap.recordsOfSnapshot orphans) orphans.roots

def orphansSession : Session := Session.empty.opening orphansHeap.store

/-- Without a class of classes the class of lists is a list without a size, that of strings empty. -/
theorem classes_orphans :
    Heap.ofSnapshot orphans = .ok orphansHeap ∧
      orphansSession.storeAt 0 = .ok orphansHeap.store ∧
      orphansHeap.HasClass ⟨0⟩ ∧ orphansHeap.HasClass ⟨1⟩ ∧
      (∀ m, ¬orphansHeap.IsNamed m Heap.metaclassName) ∧
      knotLibrary.invoke orphansSession "getSize" [.handle ⟨0, ⟨0⟩⟩] =
        .error (.store .obtainSize ⟨0⟩ (.corrupt .missingSize)) ∧
      (∃ view, Catalog.builtin.sequence? orphansSession ⟨0, ⟨0⟩⟩ = .ok (some view)) ∧
      knotLibrary.invoke orphansSession "getStringContent" [.handle ⟨0, ⟨1⟩⟩, .integer (-1)] =
        .ok (.text "") ∧
      knotLibrary.invoke orphansSession "toString" [.handle ⟨0, ⟨1⟩⟩] = .ok (.text "") := by
  have accepted : Heap.ofSnapshot orphans = .ok orphansHeap :=
    Heap.ofSnapshot_of_defect? (by decide +kernel)
  refine ⟨accepted, rfl, ⟨_, rfl, rfl⟩, ⟨_, rfl, rfl⟩, fun m => ?_, by decide +kernel,
    ⟨_, rfl⟩, by decide +kernel, by decide +kernel⟩
  rw [Heap.isNamed_iff_of_ofSnapshot accepted]
  exact Heap.metaclass?_eq_none (by decide +kernel) m

end HeapLens
