import HeapLens.Proofs.Query.Path
import HeapLens.Proofs.Store.Lineage

set_option autoImplicit false

namespace HeapLens

variable {session : Session} {place : Nat} {s : Snapshot} {h : Heap} {x : Handle}
  {n own : NodeId} {chain : List NodeId} {name className : String}

namespace Attribute

theorem mem_all (a : Attribute) : a ∈ all := by
  cases a <;> decide

theorem find?_eq_some_iff {a : Attribute} :
    find? name = some a ↔ Text.sameName a.name name = true :=
  Text.find?_sameName_eq_some_iff a.mem_all (by decide +kernel)

theorem findFor?_eq_some_iff {a : Attribute} {kind : Kind} :
    findFor? name kind = some a ↔
      Text.sameName a.name name = true ∧ (a.isClassOnly = true → kind = .classNode) := by
  rw [findFor?, Option.filter_eq_some_iff, find?_eq_some_iff]
  cases classOnly : a.isClassOnly <;> simp [appliesTo, classOnly]

theorem eq_sign_of_toLower {c : Char} (lowered : c.toLower = attributeSign) :
    c = attributeSign := by
  rcases Text.toLower_cases c with same | ⟨least, greatest, shifted⟩
  · exact same.symm.trans lowered
  · have code : c.toLower.toNat = 64 := congrArg Char.toNat lowered
    omega

theorem ofName_eq {a : Attribute} (same : Text.sameName a.name name = true) :
    Step.ofName name = .attribute name := by
  have signed : ∀ a ∈ all, (Text.folded a.name).head? = some attributeSign := by decide +kernel
  have first := signed a a.mem_all
  rw [Text.sameName_iff.mp same, Text.folded, List.head?_map] at first
  obtain ⟨c, at_name, lowered⟩ := Option.map_eq_some_iff.mp first
  rw [Step.ofName, if_pos (at_name.trans (congrArg some (eq_sign_of_toLower lowered)))]

end Attribute

@[simp] theorem Step.name_ofName (name : String) : (Step.ofName name).name = name := by
  unfold Step.ofName
  split <;> rfl

namespace Heap

/-- Whether `own` is the class at which names of a node are looked up first. -/
def StartsAt (h : Heap) (n own : NodeId) : Prop :=
  ∃ r, h.Holds n r ∧ own = if r.kind = .classNode then n else r.classId

def IsNamed (h : Heap) (c : NodeId) (name : String) : Prop :=
  ∃ superclass loader statics, h.shape? c = some (.classNode name superclass loader statics)

/--
Names of a node are looked up along the lineage of `own`, which is the node itself if it is a class,
and otherwise its class.
-/
structure LooksAlong (h : Heap) (n own : NodeId) (chain : List NodeId) (className : String) :
    Prop where
  starts : h.StartsAt n own
  lineage : h.Lineage own chain
  named : h.IsNamed own className

/-- The fields of a node that a class declares, then the statics of the class. -/
def levelOf (h : Heap) (n own c : NodeId) : List Field :=
  (h.fieldsOf n).filter (·.declaredBy.getD own = c) ++ h.staticsOf c

/-- The levels of a lineage, and after them the fields that are declared elsewhere. -/
def entriesOf (h : Heap) (n own : NodeId) (chain : List NodeId) : List Field :=
  chain.flatMap (h.levelOf n own) ++ (h.fieldsOf n).filter (·.declaredBy.getD own ∉ chain)

/-- Whether a node has an attribute that goes by the name. -/
def HasAttribute (h : Heap) (n : NodeId) (a : Attribute) (name : String) : Prop :=
  Text.sameName a.name name = true ∧ (a.isClassOnly = true → h.HasClass n)

theorem hasAttribute_iff {r : Record} (held : h.Holds n r) {a : Attribute} :
    h.HasAttribute n a name ↔ Attribute.findFor? name r.kind = some a := by
  have isClass : h.HasClass n ↔ r.kind = .classNode := by
    refine ⟨?_, fun kind => ⟨r, held, kind⟩⟩
    rintro ⟨r', held', kind⟩
    rw [Option.some.inj (held.symm.trans held')]
    exact kind
  rw [HasAttribute, isClass, Attribute.findFor?_eq_some_iff]

theorem ownClass_eq (starts : h.StartsAt n own) : h.store.ownClass n = .ok own := by
  obtain ⟨r, held, rfl⟩ := starts
  have kind_eq : h.store.kind n = .ok r.kind := answer_of_holds held _
  have class_eq : h.store.classOf n = .ok r.classId := answer_of_holds held _
  rw [Store.ownClass, kind_eq, class_eq]
  change (if r.kind = .classNode then _ else _) = _
  split <;> rfl

theorem Sound.exists_looksAlong (sound : h.Sound) (has : h.Has n) :
    ∃ own chain className, h.LooksAlong n own chain className := by
  obtain ⟨r, held⟩ := exists_holds has
  have isClass : h.HasClass (if r.kind = .classNode then n else r.classId) := by
    by_cases kind : r.kind = .classNode
    · rw [if_pos kind]
      exact ⟨r, held, kind⟩
    · rw [if_neg kind]
      exact sound.class_isClass n r held
  obtain ⟨chain, lineage, -⟩ := sound.exists_lineage isClass
  obtain ⟨className, superclass, loader, statics, shape⟩ := hasClass_iff.mp isClass
  exact ⟨_, chain, className, ⟨r, held, rfl⟩, lineage, _, _, _, shape⟩

theorem className_eq (named : h.IsNamed own className) :
    h.store.className own = .ok className := by
  obtain ⟨superclass, loader, statics, shape⟩ := named
  obtain ⟨r, held, shape_eq⟩ := Option.map_eq_some_iff.mp shape
  exact className_of_eq_some held (by rw [shape_eq]; rfl)

theorem findAlong_eq (classes : ∀ c ∈ chain, h.HasClass c) :
    h.store.findAlong (h.fieldsOf n) own name (chain.map .ok) =
      .ok (((chain.flatMap (h.levelOf n own)).find? (·.name = name)).map (·.cell)) := by
  induction chain with
  | nil => rfl
  | cons c rest ih =>
    have declared : Store.declaredField? (h.fieldsOf n) own c name =
        ((h.fieldsOf n).filter (·.declaredBy.getD own = c)).find? (·.name = name) := by
      rw [List.find?_filter, Store.declaredField?]
      congr 1
      funext f
      simp [and_comm]
    have above := ih fun d mem => classes d (List.mem_cons_of_mem _ mem)
    rw [List.map_cons, List.flatMap_cons, List.find?_append, levelOf, List.find?_append,
      ← declared, Store.findAlong]
    simp only [Task.on_ok, ok_bind]
    cases Store.declaredField? (h.fieldsOf n) own c name with
    | some f => rfl
    | none =>
      simp only [staticFields_eq (classes c List.mem_cons_self), Task.on_ok, ok_bind]
      cases (h.staticsOf c).find? (·.name = name) with
      | some f => rfl
      | none => simpa using above

theorem find?_fieldsOf
    (nothing : (chain.flatMap (h.levelOf n own)).find? (·.name = name) = none) :
    (h.fieldsOf n).find? (·.name = name) =
      ((h.fieldsOf n).filter (·.declaredBy.getD own ∉ chain)).find? (·.name = name) := by
  rw [← List.head?_filter, ← List.head?_filter, List.filter_filter]
  congr 1
  refine List.filter_congr fun f mem => ?_
  by_cases named : f.name = name
  · have outside : f.declaredBy.getD own ∉ chain := by
      intro inside
      refine List.find?_eq_none.mp nothing f ?_ (by simpa using named)
      exact List.mem_flatMap.mpr ⟨_, inside, by simp [levelOf, mem]⟩
    simp [named, outside]
  · simp [named]

theorem findCell_eq (sound : h.Sound) (has : h.Has n) (looks : h.LooksAlong n own chain className)
    (name : String) :
    h.store.findCell n name =
      match (h.entriesOf n own chain).find? (·.name = name) with
      | some f => .ok f.cell
      | none => .error (.fieldNotFound name className) := by
  have along : h.store.findAlong (h.fieldsOf n) own name (chain.map .ok) = _ :=
    findAlong_eq looks.lineage.hasClass
  rw [entriesOf, List.find?_append, Store.findCell, objectFields_eq has, ownClass_eq looks.starts]
  simp only [Task.on_ok, ok_bind, sound.classChain_eq looks.lineage, along]
  cases nothing : (chain.flatMap (h.levelOf n own)).find? (·.name = name) with
  | some f => rfl
  | none =>
    simp only [Option.map_none, Option.none_or, ← find?_fieldsOf nothing, className_eq looks.named]
    cases (h.fieldsOf n).find? (·.name = name) <;> rfl

/-- Nothing of a name is found exactly if no field and no static of the lineage has it. -/
theorem find?_entriesOf_eq_none_iff :
    (h.entriesOf n own chain).find? (·.name = name) = none ↔
      (∀ f ∈ h.fieldsOf n, f.name ≠ name) ∧
        ∀ c ∈ chain, ∀ f ∈ h.staticsOf c, f.name ≠ name := by
  simp only [List.find?_eq_none, decide_eq_true_eq, entriesOf, List.mem_append, List.mem_flatMap,
    levelOf, List.mem_filter]
  constructor
  · intro nothing
    refine ⟨fun f mem => nothing f ?_, fun c mem_c f mem => nothing f (.inl ⟨c, mem_c, .inr mem⟩)⟩
    by_cases inside : f.declaredBy.getD own ∈ chain
    · exact .inl ⟨_, inside, .inl ⟨mem, rfl⟩⟩
    · exact .inr ⟨mem, inside⟩
  · rintro ⟨fields, statics⟩ f (⟨c, mem_c, ⟨mem, _⟩ | mem⟩ | ⟨mem, _⟩)
    · exact fields f mem
    · exact statics c mem_c f mem
    · exact fields f mem

end Heap

namespace Session.Opens

variable {step : Step}

theorem follow_eq_followField (opens : session.Opens place h) (within : x.Within place h)
    (plain : ∀ name a, step = .attribute name → ¬h.HasAttribute x.node a name) :
    x.follow session step = x.followField h.store step.name := by
  rw [Handle.follow, opens.storeOf_eq within]
  rcases step with name | name
  · rfl
  · obtain ⟨r, held⟩ := Heap.exists_holds within.has
    have kind_eq : h.store.kind x.node = .ok r.kind := Heap.answer_of_holds held _
    have none_found : Attribute.findFor? name r.kind = none :=
      Option.eq_none_iff_forall_ne_some.mpr fun a found =>
        plain name a rfl ((Heap.hasAttribute_iff held).mpr found)
    simp only [Task.on_ok, ok_bind, kind_eq, none_found, Step.name]

theorem follow_eq_attribute (opens : session.Opens place h) (within : x.Within place h)
    {a : Attribute} (owned : h.HasAttribute x.node a name) :
    x.follow session (.ofName name) = x.attribute session a := by
  obtain ⟨r, held⟩ := Heap.exists_holds within.has
  have kind_eq : h.store.kind x.node = .ok r.kind := Heap.answer_of_holds held _
  have found := (Heap.hasAttribute_iff held).mp owned
  rw [Attribute.ofName_eq owned.1, Handle.follow, opens.storeOf_eq within]
  simp only [Task.on_ok, ok_bind, kind_eq, found]

end Session.Opens

theorem QueryValue.ofCell_ne_fieldNotFound {c : Cell} {field : String} :
    QueryValue.ofCell x c ≠ .error (.fieldNotFound field className) := by
  cases c <;> simp [QueryValue.ofCell]

/--
A name of an attribute that a node has denotes the attribute, even if a field has the name too; one
that only classes have is a plain name for other nodes. Every other name denotes the first of its
entries, so it does not matter what stands on the levels above.
-/
theorem follow_finds_nearest (accepted : Heap.ofSnapshot s = .ok h)
    (opened : session.storeAt place = .ok h.store) (within : x.Within place h) :
    (∃ own chain className, h.LooksAlong x.node own chain className) ∧
      (∀ own chain className, h.LooksAlong x.node own chain className →
        ∀ step : Step, (∀ name a, step = .attribute name → ¬h.HasAttribute x.node a name) →
          (x.follow session step =
            match (h.entriesOf x.node own chain).find? (·.name = step.name) with
            | some f => QueryValue.ofCell x f.cell
            | none => .error (.fieldNotFound step.name className)) ∧
          (∀ field cls, x.follow session step = .error (.fieldNotFound field cls) ↔
            field = step.name ∧ cls = className ∧
              (∀ f ∈ h.fieldsOf x.node, f.name ≠ step.name) ∧
              ∀ c ∈ chain, ∀ f ∈ h.staticsOf c, f.name ≠ step.name) ∧
          ∀ lower f, lower <+: chain →
            (lower.flatMap (h.levelOf x.node own)).find? (·.name = step.name) = some f →
            x.follow session step = QueryValue.ofCell x f.cell) ∧
      (∀ name a, h.HasAttribute x.node a name →
        x.follow session (.ofName name) = x.attribute session a) ∧
      ∀ name (a : Attribute), Text.sameName a.name name = true → a.isClassOnly = true →
        ¬h.HasClass x.node → x.follow session (.ofName name) = x.follow session (.field name) := by
  have sound := Heap.sound_of_ofSnapshot accepted
  have opens : session.Opens place h := ⟨sound, opened⟩
  refine ⟨sound.exists_looksAlong within.has, fun own chain className looks step plain => ?_,
    fun name a => opens.follow_eq_attribute within, ?_⟩
  · have follow_eq : x.follow session step =
        match (h.entriesOf x.node own chain).find? (·.name = step.name) with
        | some f => QueryValue.ofCell x f.cell
        | none => .error (.fieldNotFound step.name className) := by
      rw [opens.follow_eq_followField within plain, Handle.followField,
        Heap.findCell_eq sound within.has looks]
      cases (h.entriesOf x.node own chain).find? (·.name = step.name) <;> rfl
    refine ⟨follow_eq, fun field cls => ?_, fun lower f below found => ?_⟩
    · rw [follow_eq, ← Heap.find?_entriesOf_eq_none_iff]
      cases (h.entriesOf x.node own chain).find? (·.name = step.name) with
      | some f => simp [QueryValue.ofCell_ne_fieldNotFound]
      | none => simp [eq_comm]
    · obtain ⟨upper, rfl⟩ := below
      rw [follow_eq, Heap.entriesOf, List.flatMap_append, List.find?_append, List.find?_append,
        found]
      rfl
  · intro name a same classOnly other
    have plain : ∀ name' b, Step.ofName name = .attribute name' →
        ¬h.HasAttribute x.node b name' := by
      rintro name' b written ⟨same_b, owned⟩
      rw [Attribute.ofName_eq same] at written
      obtain rfl := Step.attribute.inj written
      have found := Attribute.find?_eq_some_iff.mpr same
      rw [Attribute.find?_eq_some_iff.mpr same_b, Option.some_inj] at found
      exact other (owned (found ▸ classOnly))
    have by_name : x.follow session (.field name) = x.followField h.store name :=
      opens.follow_eq_followField within (by simp)
    rw [opens.follow_eq_followField within plain, by_name, Step.name_ofName]

def shades : Snapshot where
  nodes :=
    [⟨.classNode "Base" none none [⟨"limit", .int 1, none⟩, ⟨"base", .bool true, none⟩],
        none, none⟩,
      ⟨.classNode "Derived" (some ⟨0⟩) none [⟨"limit", .int 2, none⟩], none, none⟩,
      ⟨.classNode "Stranger" none none [], none, none⟩,
      ⟨.plain ⟨1⟩ [⟨"limit", .int 3, some ⟨0⟩⟩, ⟨"base", .int 4, some ⟨2⟩⟩,
        ⟨"stray", .int 5, some ⟨2⟩⟩, ⟨"@super", .int 6, none⟩, ⟨"@CLASS", .int 7, none⟩],
        none, none⟩]
  roots := [⟨3⟩]

def shadesHeap : Heap := Heap.assemble (Heap.recordsOfSnapshot shades) shades.roots

def shadesSession : Session := Session.empty.opening shadesHeap.store

theorem ofSnapshot_shades : Heap.ofSnapshot shades = .ok shadesHeap :=
  Heap.ofSnapshot_of_defect? (by decide +kernel)

theorem looksAlong_shades : shadesHeap.LooksAlong ⟨3⟩ ⟨1⟩ [⟨1⟩, ⟨0⟩] "Derived" := by
  have derived := Heap.shape?_of_describes ofSnapshot_shades (n := ⟨1⟩) rfl
  have base := Heap.shape?_of_describes ofSnapshot_shades (n := ⟨0⟩) rfl
  exact ⟨⟨_, (Heap.holds_iff ofSnapshot_shades).mpr ⟨_, rfl, rfl⟩, rfl⟩,
    .derived derived (.root base), _, _, _, derived⟩

theorem follow_shades :
    Heap.ofSnapshot shades = .ok shadesHeap ∧
      Handle.follow shadesSession ⟨0, ⟨3⟩⟩ (.field "limit") = .ok (.integer 2) ∧
      Handle.follow shadesSession ⟨0, ⟨3⟩⟩ (.field "base") = .ok (.boolean true) ∧
      Handle.follow shadesSession ⟨0, ⟨3⟩⟩ (.field "stray") = .ok (.integer 5) ∧
      Handle.follow shadesSession ⟨0, ⟨3⟩⟩ (.field "none") =
        .error (.fieldNotFound "none" "Derived") ∧
      Handle.follow shadesSession ⟨0, ⟨3⟩⟩ (.ofName "@super") =
        Handle.follow shadesSession ⟨0, ⟨3⟩⟩ (.field "@super") ∧
      Handle.follow shadesSession ⟨0, ⟨3⟩⟩ (.ofName "@CLASS") =
        Handle.attribute shadesSession ⟨0, ⟨3⟩⟩ .classOf := by
  have has : shadesHeap.Has ⟨3⟩ := (Heap.has_iff_of_ofSnapshot ofSnapshot_shades).mpr (by decide)
  obtain ⟨-, finds, wins, plain⟩ := follow_finds_nearest ofSnapshot_shades (x := ⟨0, ⟨3⟩⟩)
    (rfl : shadesSession.storeAt 0 = .ok shadesHeap.store) ⟨rfl, has⟩
  have found := finds _ _ _ looksAlong_shades
  have entries : shadesHeap.entriesOf ⟨3⟩ ⟨1⟩ [⟨1⟩, ⟨0⟩] =
      [⟨"@super", .int 6, none⟩, ⟨"@CLASS", .int 7, none⟩, ⟨"limit", .int 2, none⟩,
        ⟨"limit", .int 3, some ⟨0⟩⟩, ⟨"limit", .int 1, none⟩, ⟨"base", .bool true, none⟩,
        ⟨"base", .int 4, some ⟨2⟩⟩, ⟨"stray", .int 5, some ⟨2⟩⟩] := by
    decide +kernel
  rw [entries] at found
  have object : ¬shadesHeap.HasClass ⟨3⟩ := by
    rintro ⟨r, held, kind⟩
    obtain ⟨d, described, rfl⟩ := (Heap.holds_iff ofSnapshot_shades).mp held
    cases described
    cases kind
  exact ⟨ofSnapshot_shades, (found (.field "limit") (by simp)).1,
    (found (.field "base") (by simp)).1, (found (.field "stray") (by simp)).1,
    (found (.field "none") (by simp)).1,
    plain "@super" .superclass (by decide +kernel) rfl object,
    wins "@CLASS" .classOf ⟨by decide +kernel, nofun⟩⟩

end HeapLens
