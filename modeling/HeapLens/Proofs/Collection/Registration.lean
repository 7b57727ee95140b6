import HeapLens.Proofs.Query.ClassObjects

set_option autoImplicit false

namespace HeapLens

namespace Catalog

def registerAll (c : Catalog) (calls : List (String × Strategy)) : Catalog :=
  calls.foldl (fun c call => c.register call.1 call.2) c

def latest? (calls : List (String × Strategy)) (name : String) : Option Strategy :=
  (calls.filter (·.1 = name)).getLast?.map Prod.snd

variable {c : Catalog} {calls : List (String × Strategy)} {name : String} {strategy : Strategy}

theorem lookup_register_same : (c.register name strategy).lookup name = some strategy := by
  rw [lookup, register, List.lookup_cons_self]

theorem lookup_register_other {other : String} (ne : other ≠ name) :
    (c.register other strategy).lookup name = c.lookup name := by
  have kept (entries : List (String × Strategy)) :
      (entries.filter (·.1 ≠ other)).lookup name = entries.lookup name := by
    induction entries with
    | nil => rfl
    | cons entry rest ih =>
      obtain ⟨key, found⟩ := entry
      by_cases replaced : key = other
      · have differs : (name == key) = false := beq_eq_false_iff_ne.mpr (replaced ▸ ne.symm)
        rw [List.filter_cons_of_neg (by simpa using replaced), ih, List.lookup_cons, differs]
      · rw [List.filter_cons_of_pos (by simpa using replaced), List.lookup_cons, List.lookup_cons,
          ih]
  have differs : (name == other) = false := beq_eq_false_iff_ne.mpr ne.symm
  rw [lookup, register, List.lookup_cons, differs]
  exact kept c.entries

theorem lookup_registerAll (c : Catalog) (calls : List (String × Strategy)) (name : String) :
    (c.registerAll calls).lookup name = (latest? calls name).or (c.lookup name) := by
  induction calls generalizing c with
  | nil => rfl
  | cons call rest ih =>
    have folded : c.registerAll (call :: rest) = (c.register call.1 call.2).registerAll rest := rfl
    rw [folded, ih, latest?, latest?]
    by_cases same : call.1 = name
    · rw [List.filter_cons_of_pos (by simpa using same), List.getLast?_cons, ← same,
        lookup_register_same]
      cases (rest.filter (·.1 = call.1)).getLast? <;> rfl
    · rw [List.filter_cons_of_neg (by simpa using same), lookup_register_other same]

theorem lookup_registerAll_empty (calls : List (String × Strategy)) (name : String) :
    (empty.registerAll calls).lookup name = latest? calls name := by
  rw [lookup_registerAll]
  exact Option.or_none

theorem latest?_eq_none_iff : latest? calls name = none ↔ name ∉ calls.map Prod.fst := by
  rw [latest?, Option.map_eq_none_iff, List.getLast?_eq_none_iff, List.filter_eq_nil_iff,
    List.mem_map]
  grind

theorem latest?_eq_some_iff :
    latest? calls name = some strategy ↔
      ∃ before after, calls = before ++ (name, strategy) :: after ∧ name ∉ after.map Prod.fst := by
  have found : latest? calls name = (calls.reverse.find? (·.1 = name)).map Prod.snd := by
    rw [latest?, List.getLast?_eq_head?_reverse, ← List.filter_reverse, List.head?_filter]
  rw [found, Option.map_eq_some_iff]
  constructor
  · rintro ⟨call, hit, given⟩
    obtain ⟨named, behind, front, split, apart⟩ := List.find?_eq_some_iff_append.mp hit
    have named : call.1 = name := of_decide_eq_true named
    refine ⟨front.reverse, behind.reverse, ?_, ?_⟩
    · rw [← named, ← given, ← List.reverse_reverse calls, split]
      simp
    · intro occurs
      obtain ⟨later, mem, same⟩ := List.mem_map.mp occurs
      have differs := apart later (List.mem_reverse.mp mem)
      simp [same] at differs
  · rintro ⟨before, after, split, apart⟩
    refine ⟨(name, strategy), List.find?_eq_some_iff_append.mpr ?_, rfl⟩
    refine ⟨decide_eq_true rfl, after.reverse, before.reverse, by simp [split], ?_⟩
    intro later mem
    have differs : later.1 ≠ name := fun same =>
      apart (same ▸ List.mem_map_of_mem (List.mem_reverse.mp mem))
    simpa using differs

def Registers (calls : List (String × Strategy)) (h : Heap) (d : NodeId) : Prop :=
  ∃ name, h.IsNamed d name ∧ name ∈ calls.map Prod.fst

variable {snapshot : Snapshot} {h : Heap} {n d : NodeId} {chain : List NodeId}

theorem bind_nameOf?_eq_some_iff :
    (h.nameOf? d).bind (empty.registerAll calls).lookup = some strategy ↔
      ∃ name, h.IsNamed d name ∧ latest? calls name = some strategy := by
  rw [Option.bind_eq_some_iff]
  simp only [lookup_registerAll_empty, Heap.isNamed_iff]

theorem bind_nameOf?_eq_none_iff :
    (h.nameOf? d).bind (empty.registerAll calls).lookup = none ↔ ¬Registers calls h d := by
  rw [Option.bind_eq_none_iff]
  simp only [lookup_registerAll_empty, latest?_eq_none_iff, ← Heap.isNamed_iff]
  constructor
  · intro unknown ⟨name, named, mem⟩
    exact unknown name named mem
  · intro unknown name named mem
    exact unknown ⟨name, named, mem⟩

theorem nearest?_registerAll_eq_some_iff :
    (empty.registerAll calls).nearest? h chain = some strategy ↔
      ∃ below d above name, chain = below ++ d :: above ∧ (∀ e ∈ below, ¬Registers calls h e) ∧
        h.IsNamed d name ∧ latest? calls name = some strategy := by
  rw [nearest?, List.findSome?_eq_some_iff]
  simp only [bind_nameOf?_eq_none_iff, bind_nameOf?_eq_some_iff]
  constructor
  · rintro ⟨below, d, above, split, ⟨name, named, given⟩, unknown⟩
    exact ⟨below, d, above, name, split, unknown, named, given⟩
  · rintro ⟨below, d, above, name, split, unknown, named, given⟩
    exact ⟨below, d, above, split, ⟨name, named, given⟩, unknown⟩

theorem bind_nameOf?_congr {calls' : List (String × Strategy)}
    (same : ∀ name, h.IsNamed d name →
      calls'.filter (·.1 = name) = calls.filter (·.1 = name)) :
    (h.nameOf? d).bind (empty.registerAll calls').lookup =
      (h.nameOf? d).bind (empty.registerAll calls).lookup := by
  cases named : h.nameOf? d with
  | none => rfl
  | some name =>
    rw [Option.bind_some, Option.bind_some, lookup_registerAll_empty, lookup_registerAll_empty,
      latest?, latest?, same name (Heap.isNamed_iff.mpr named)]

theorem nearest?_registerAll_congr {calls' : List (String × Strategy)}
    (same : ∀ d ∈ chain, ∀ name, h.IsNamed d name →
      calls'.filter (·.1 = name) = calls.filter (·.1 = name)) :
    (empty.registerAll calls').nearest? h chain = (empty.registerAll calls).nearest? h chain := by
  induction chain with
  | nil => rfl
  | cons d rest ih =>
    have own := bind_nameOf?_congr (same d List.mem_cons_self)
    have above := ih fun e mem => same e (List.mem_cons_of_mem _ mem)
    rw [nearest?, nearest?] at above
    rw [nearest?, nearest?, List.findSome?_cons, List.findSome?_cons, own, above]

/--
After any registrations every node of a heap has an answer. It is the strategy registered last for
the name of the nearest class that has a registered name; there is none exactly if no class of the
chain has one. Registrations of names off the chain do not count, nor does it how the registrations
of different names are ordered.
-/
theorem strategyOf_registered (calls : List (String × Strategy))
    (accepted : Heap.ofSnapshot snapshot = .ok h) (has : h.Has n) :
    ∃ classId chain, h.store.classOf n = .ok classId ∧ h.Lineage classId chain ∧
      h.store.classChain classId = chain.map .ok ∧
      (∃ answer, (empty.registerAll calls).strategyOf h.store n = .ok answer) ∧
      (∀ strategy, (empty.registerAll calls).strategyOf h.store n = .ok (some strategy) ↔
        ∃ below d above name before after, chain = below ++ d :: above ∧
          (∀ e ∈ below, ¬Registers calls h e) ∧ h.IsNamed d name ∧
          calls = before ++ (name, strategy) :: after ∧ name ∉ after.map Prod.fst) ∧
      ((empty.registerAll calls).strategyOf h.store n = .ok none ↔
        ∀ d ∈ chain, ¬Registers calls h d) ∧
      ∀ calls' : List (String × Strategy),
        (∀ d ∈ chain, ∀ name, h.IsNamed d name →
          calls'.filter (·.1 = name) = calls.filter (·.1 = name)) →
        (empty.registerAll calls').strategyOf h.store n =
          (empty.registerAll calls).strategyOf h.store n := by
  have sound := Heap.sound_of_ofSnapshot accepted
  obtain ⟨r, held⟩ := Heap.exists_holds has
  have isClass := sound.class_isClass _ _ held
  obtain ⟨chain, lineage, chain_eq⟩ := sound.exists_lineage isClass
  have answer_eq (calls : List (String × Strategy)) :
      (empty.registerAll calls).strategyOf h.store n =
        .ok ((empty.registerAll calls).nearest? h chain) := strategyOf_eq sound held lineage
  refine ⟨r.classId, chain, Heap.answer_of_holds held _, lineage, chain_eq, ⟨_, answer_eq calls⟩,
    fun strategy => ?_, ?_, fun calls' same => ?_⟩
  · rw [answer_eq, Except.ok.injEq, nearest?_registerAll_eq_some_iff]
    constructor
    · rintro ⟨below, d, above, name, split, unknown, named, given⟩
      obtain ⟨before, after, parts, apart⟩ := latest?_eq_some_iff.mp given
      exact ⟨below, d, above, name, before, after, split, unknown, named, parts, apart⟩
    · rintro ⟨below, d, above, name, before, after, split, unknown, named, parts, apart⟩
      exact ⟨below, d, above, name, split, unknown, named,
        latest?_eq_some_iff.mpr ⟨before, after, parts, apart⟩⟩
  · rw [answer_eq, Except.ok.injEq, nearest?, List.findSome?_eq_none_iff]
    simp only [bind_nameOf?_eq_none_iff]
  · rw [answer_eq, answer_eq, nearest?_registerAll_congr same]

def rack : Snapshot where
  nodes :=
    [⟨.classNode "java.lang.Object" none none [], none, none⟩,
      ⟨.classNode "Shelf" (some ⟨0⟩) none [], none, none⟩,
      ⟨.classNode "Shelf" (some ⟨1⟩) none [], none, none⟩,
      ⟨.classNode "Rack" (some ⟨2⟩) none [], none, none⟩,
      ⟨.plain ⟨3⟩ [], none, none⟩]
  roots := []

def rackHeap : Heap := Heap.assemble (Heap.recordsOfSnapshot rack) rack.roots

def rackCalls : List (String × Strategy) :=
  [("Shelf", .countedArray "size" "slots"), ("Crate", .keySet "map" "size" "table"),
    ("Shelf", .hashTable "size" "table"), ("java.lang.Object", .countedArray "size" "slots")]

/-- The later registration of the shelves counts, and the one of all objects does not. -/
theorem strategyOf_rack :
    Heap.ofSnapshot rack = .ok rackHeap ∧ rackHeap.Has ⟨4⟩ ∧
      (empty.registerAll rackCalls).strategyOf rackHeap.store ⟨4⟩ =
        .ok (some (.hashTable "size" "table")) := by
  have accepted : Heap.ofSnapshot rack = .ok rackHeap :=
    Heap.ofSnapshot_of_defect? (by decide +kernel)
  have has : rackHeap.Has ⟨4⟩ := (Heap.has_iff_of_ofSnapshot accepted).mpr (by decide +kernel)
  have object := Heap.shape?_of_describes accepted (n := ⟨0⟩) rfl
  have older := Heap.shape?_of_describes accepted (n := ⟨1⟩) rfl
  have newer := Heap.shape?_of_describes accepted (n := ⟨2⟩) rfl
  have own := Heap.shape?_of_describes accepted (n := ⟨3⟩) rfl
  obtain ⟨classId, chain, class_eq, lineage, -, -, given_iff, -⟩ :=
    strategyOf_registered rackCalls accepted has
  obtain rfl : ⟨3⟩ = classId := Except.ok.inj class_eq
  have all : chain = [⟨3⟩, ⟨2⟩, ⟨1⟩, ⟨0⟩] :=
    lineage.unique (.derived own (.derived newer (.derived older (.root object))))
  have unknown : ¬Registers rackCalls rackHeap ⟨3⟩ := by
    intro ⟨name, named, mem⟩
    rw [Heap.IsNamed.unique named ⟨_, _, _, own⟩] at mem
    exact absurd mem (by decide)
  refine ⟨accepted, has, (given_iff _).mpr ⟨[⟨3⟩], ⟨2⟩, [⟨1⟩, ⟨0⟩], "Shelf", rackCalls.take 2,
    rackCalls.drop 3, all, ?_, ⟨_, _, _, newer⟩, rfl, by decide⟩⟩
  intro e mem
  rw [List.mem_singleton.mp mem]
  exact unknown

end Catalog

end HeapLens
