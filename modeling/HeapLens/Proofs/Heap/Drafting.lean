import HeapLens.Heap.Draft
import Mathlib.Data.List.Induction

set_option autoImplicit false

namespace HeapLens.Draft

variable {d : Draft} {calls before between : List Call} {call : Call} {node : Node} {i : Nat}

namespace Call

/-- The description that an addition adds. -/
def added? : Call → Option Node
  | .push node => some node
  | .addClass name superclass statics =>
    some ⟨.classNode name superclass none statics, none, none⟩
  | .addClassWithLoader name superclass loader =>
    some ⟨.classNode name superclass (some loader) [], none, none⟩
  | .addObject classId fields => some ⟨.plain classId fields, none, none⟩
  | .addLoader classId => some ⟨.loader classId [], none, none⟩
  | .addArray classId elements => some ⟨.array classId elements, none, none⟩
  | .setSize .. => none
  | .addRoot _ => none
  | .nextId => none

def sizeFor? (i : Nat) : Call → Option UInt64
  | .setSize node bytes => if node.index = i then some bytes else none
  | _ => none

def root? : Call → Option NodeId
  | .addRoot node => some node
  | _ => none

end Call

def described (calls : List Call) : List Node := calls.filterMap Call.added?

def since : List Call → Nat → List Call
  | [], _ => []
  | call :: rest, i =>
    match call.added?, i with
    | none, i => since rest i
    | some _, 0 => rest
    | some _, i + 1 => since rest i

/-- The size that was last set for the node at position `i` after it had been added. -/
def lastSize? (calls : List Call) (i : Nat) : Option UInt64 :=
  ((since calls i).filterMap (·.sizeFor? i)).getLast?

def resized (size : Option UInt64) (node : Node) : Node := { node with size := size.or node.size }

/-- The snapshot that calls describe. -/
def snapshotOf (calls : List Call) : Snapshot where
  nodes := (described calls).mapIdx fun i node => resized (lastSize? calls i) node
  roots := calls.filterMap Call.root?

theorem Call.eq_of_added?_eq_none (none_added : call.added? = none) :
    (∃ id bytes, call = .setSize id bytes) ∨ (∃ id, call = .addRoot id) ∨ call = .nextId := by
  cases call with
  | setSize id bytes => exact .inl ⟨id, bytes, rfl⟩
  | addRoot id => exact .inr (.inl ⟨id, rfl⟩)
  | nextId => exact .inr (.inr rfl)
  | _ => cases none_added

theorem Call.sizeFor?_of_added (added : call.added? = some node) : call.sizeFor? i = none := by
  cases call with
  | setSize id bytes => cases added
  | _ => rfl

theorem Call.root?_of_added (added : call.added? = some node) : call.root? = none := by
  cases call with
  | addRoot id => cases added
  | _ => rfl

theorem perform_of_added (added : call.added? = some node) :
    d.perform call = (d.push node, some d.nextId) := by
  cases call <;> cases added <;> rfl

theorem performAll_append (d : Draft) (before calls : List Call) :
    d.performAll (before ++ calls) = (d.performAll before).performAll calls :=
  List.foldl_append

theorem performAll_concat (d : Draft) (calls : List Call) (call : Call) :
    d.performAll (calls ++ [call]) = ((d.performAll calls).perform call).1 :=
  performAll_append d calls [call]

theorem described_append (before calls : List Call) :
    described (before ++ calls) = described before ++ described calls :=
  List.filterMap_append

theorem described_cons_of_added (added : call.added? = some node) :
    described (call :: calls) = node :: described calls :=
  List.filterMap_cons_some added

theorem described_cons_of_not_added (none_added : call.added? = none) :
    described (call :: calls) = described calls :=
  List.filterMap_cons_none none_added

theorem size_perform (d : Draft) (call : Call) :
    (d.perform call).1.nodes.size = d.nodes.size + (described [call]).length := by
  cases added : call.added? with
  | some node =>
    rw [perform_of_added added, described_cons_of_added added]
    exact Array.size_push node
  | none =>
    rw [described_cons_of_not_added added]
    obtain ⟨id, bytes, rfl⟩ | ⟨id, rfl⟩ | rfl := Call.eq_of_added?_eq_none added
    · exact Array.size_modify
    · rfl
    · rfl

theorem size_performAll (calls : List Call) :
    (empty.performAll calls).nodes.size = (described calls).length := by
  induction calls using List.reverseRecOn with
  | nil => rfl
  | append_singleton calls call ih =>
    rw [performAll_concat, size_perform, ih, described_append, List.length_append]

theorem since_cons_of_not_added (none_added : call.added? = none) :
    since (call :: calls) i = since calls i := by
  simp [since, none_added]

theorem since_cons_zero (added : call.added? = some node) : since (call :: calls) 0 = calls := by
  simp [since, added]

theorem since_cons_succ (added : call.added? = some node) :
    since (call :: calls) (i + 1) = since calls i := by
  simp [since, added]

theorem since_concat (calls : List Call) (call : Call) (i : Nat) :
    since (calls ++ [call]) i =
      if i < (described calls).length then since calls i ++ [call] else [] := by
  induction calls generalizing i with
  | nil =>
    cases added : call.added? with
    | none => exact since_cons_of_not_added added
    | some node =>
      cases i with
      | zero => exact since_cons_zero added
      | succ i => exact since_cons_succ added
  | cons first calls ih =>
    rw [List.cons_append]
    cases added : first.added? with
    | none =>
      rw [since_cons_of_not_added added, since_cons_of_not_added added,
        described_cons_of_not_added added, ih]
    | some node =>
      rw [described_cons_of_added added, List.length_cons]
      cases i with
      | zero => rw [since_cons_zero added, since_cons_zero added, if_pos (Nat.succ_pos _)]
      | succ i =>
        rw [since_cons_succ added, since_cons_succ added, ih]
        simp only [Nat.add_lt_add_iff_right]

theorem lastSize?_concat (below : i < (described calls).length) :
    lastSize? (calls ++ [call]) i = (call.sizeFor? i).or (lastSize? calls i) := by
  rw [lastSize?, since_concat, if_pos below, List.filterMap_append, List.getLast?_append]
  cases sets : call.sizeFor? i with
  | none => simp [sets, lastSize?]
  | some bytes => simp [sets]

theorem lastSize?_of_new (beyond : (described calls).length ≤ i) :
    lastSize? (calls ++ [call]) i = none := by
  rw [lastSize?, since_concat, if_neg (Nat.not_lt.mpr beyond)]
  rfl

theorem resized_resized (size size' : Option UInt64) (node : Node) :
    resized size (resized size' node) = resized (size.or size') node := by
  cases size <;> rfl

theorem map_resized_none (o : Option Node) : o.map (resized none) = o :=
  Option.map_id_apply

theorem nodes_setSize (d : Draft) (id : NodeId) (bytes : UInt64) (i : Nat) :
    (d.setSize id bytes).nodes[i]? =
      d.nodes[i]?.map (resized ((Call.setSize id bytes).sizeFor? i)) := by
  change (d.nodes.modify id.index _)[i]? = _
  rw [Array.getElem?_modify, Call.sizeFor?]
  split
  · rfl
  · exact (map_resized_none _).symm

theorem nodes_of_not_added (none_added : call.added? = none) (i : Nat) :
    (d.perform call).1.nodes[i]? = d.nodes[i]?.map (resized (call.sizeFor? i)) := by
  obtain ⟨id, bytes, rfl⟩ | ⟨id, rfl⟩ | rfl := Call.eq_of_added?_eq_none none_added
  · exact nodes_setSize d id bytes i
  · exact (map_resized_none _).symm
  · exact (map_resized_none _).symm

theorem nodes_push (d : Draft) (node : Node) (i : Nat) :
    (d.push node).nodes[i]? =
      if i < d.nodes.size then d.nodes[i]? else [node][i - d.nodes.size]? := by
  rw [← Array.getElem?_toList, ← Array.getElem?_toList, ← Array.length_toList, push,
    Array.toList_push]
  exact List.getElem?_append

/-- A call gives a node that is there the size that it sets for it, or adds a node behind all. -/
theorem nodes_perform (d : Draft) (call : Call) (i : Nat) :
    (d.perform call).1.nodes[i]? =
      if i < d.nodes.size then d.nodes[i]?.map (resized (call.sizeFor? i))
      else (described [call])[i - d.nodes.size]? := by
  cases added : call.added? with
  | some node =>
    rw [perform_of_added added, described_cons_of_added added, Call.sizeFor?_of_added added,
      map_resized_none]
    exact nodes_push d node i
  | none =>
    rw [nodes_of_not_added added, described_cons_of_not_added added]
    split
    · rfl
    · rename_i beyond
      rw [Array.getElem?_eq_none (Nat.le_of_not_lt beyond)]
      rfl

theorem nodes_performAll (calls : List Call) (i : Nat) :
    (empty.performAll calls).nodes[i]? =
      (described calls)[i]?.map (resized (lastSize? calls i)) := by
  induction calls using List.reverseRecOn with
  | nil => rfl
  | append_singleton calls call ih =>
    rw [performAll_concat, nodes_perform, size_performAll, ih, described_append,
      List.getElem?_append]
    split
    · rename_i below
      rw [lastSize?_concat below, Option.map_map]
      congr 1
      funext node
      exact resized_resized _ _ node
    · rename_i beyond
      rw [lastSize?_of_new (Nat.le_of_not_lt beyond), map_resized_none]

theorem roots_perform (d : Draft) (call : Call) :
    (d.perform call).1.roots.toList = d.roots.toList ++ [call].filterMap Call.root? := by
  cases added : call.added? with
  | some node =>
    rw [perform_of_added added, List.filterMap_cons_none (Call.root?_of_added added)]
    exact (List.append_nil _).symm
  | none =>
    obtain ⟨id, bytes, rfl⟩ | ⟨id, rfl⟩ | rfl := Call.eq_of_added?_eq_none added
    · exact (List.append_nil _).symm
    · exact Array.toList_push
    · exact (List.append_nil _).symm

theorem roots_performAll (calls : List Call) :
    (empty.performAll calls).roots.toList = calls.filterMap Call.root? := by
  induction calls using List.reverseRecOn with
  | nil => rfl
  | append_singleton calls call ih =>
    rw [performAll_concat, roots_perform, ih, List.filterMap_append]

theorem snapshot_performAll (calls : List Call) :
    (empty.performAll calls).snapshot = snapshotOf calls := by
  have same_nodes : (empty.performAll calls).nodes.toList = (snapshotOf calls).nodes :=
    List.ext_getElem? fun i => by
      rw [Array.getElem?_toList, nodes_performAll, snapshotOf, List.getElem?_mapIdx]
  rw [snapshot, same_nodes, roots_performAll]
  rfl

def issued (calls : List Call) : List NodeId :=
  (List.range (described calls).length).map NodeId.ofIndex

def answer (before : List Call) (call : Call) : Option NodeId :=
  ((empty.performAll before).perform call).2

theorem nextId_performAll (calls : List Call) :
    (empty.performAll calls).nextId = .ofIndex (described calls).length := by
  rw [nextId, size_performAll]

theorem answer_of_added (before : List Call) (added : call.added? = some node) :
    answer before call = some (.ofIndex (described before).length) := by
  rw [answer, perform_of_added added, nextId_performAll]

theorem answer_nextId (before : List Call) :
    answer before .nextId = some (.ofIndex (described before).length) :=
  congrArg some (nextId_performAll before)

theorem le_index_of_not_issued {id : NodeId} (fresh : id ∉ issued calls) :
    (described calls).length ≤ id.index := by
  by_contra below
  exact fresh (List.mem_map.mpr
    ⟨id.index, List.mem_range.mpr (Nat.lt_of_not_le below), NodeId.ofIndex_index id⟩)

/-- Whether the drafts differ in the size of one node only, which is set in the second. -/
structure SetsSize (d d' : Draft) (id : NodeId) (bytes : UInt64) : Prop where
  roots : d'.roots = d.roots
  count : d'.nodes.size = d.nodes.size
  others (i : Nat) : i ≠ id.index → d'.nodes[i]? = d.nodes[i]?
  own : d'.nodes[id.index]? = d.nodes[id.index]?.map fun node => { node with size := some bytes }

theorem setsSize_setSize (d : Draft) (id : NodeId) (bytes : UInt64) :
    SetsSize d (d.setSize id bytes) id bytes where
  roots := rfl
  count := Array.size_modify
  others i other := by
    rw [nodes_setSize, Call.sizeFor?, if_neg (Ne.symm other)]
    exact map_resized_none _
  own := by
    rw [nodes_setSize, Call.sizeFor?, if_pos rfl]
    rfl

theorem setSize_of_beyond {id : NodeId} (beyond : d.nodes.size ≤ id.index) (bytes : UInt64) :
    d.setSize id bytes = d := by
  have sets := setsSize_setSize d id bytes
  have same_nodes : (d.setSize id bytes).nodes = d.nodes := by
    apply Array.ext_getElem?
    intro i
    by_cases own : i = id.index
    · rw [own, sets.own, Array.getElem?_eq_none beyond]
      rfl
    · exact sets.others i own
  exact congrArg (Draft.mk · d.roots) same_nodes

/--
Additions are numbered in the order in which they are made, and `nextId` announces the next number.
The heap that comes out is that of the snapshot that the calls describe. A size for a number that no
addition has answered yet is as good as not set at all, and setting one changes nothing else.
-/
theorem drafts_follow_calls :
    (∀ before call node, call.added? = some node →
      answer before call = some (.ofIndex (described before).length)) ∧
    (∀ before between call node, described between = [] → call.added? = some node →
      answer before .nextId = answer (before ++ between) call) ∧
    (∀ calls, (empty.performAll calls).build = Heap.ofSnapshot (snapshotOf calls)) ∧
    (∀ before after id bytes, id ∉ issued before →
      empty.performAll (before ++ .setSize id bytes :: after) =
        empty.performAll (before ++ after)) ∧
    ∀ (d : Draft) (id : NodeId) (bytes : UInt64),
      SetsSize d (d.perform (.setSize id bytes)).1 id bytes := by
  refine ⟨fun before call node added => answer_of_added before added, ?_, ?_, ?_, setsSize_setSize⟩
  · intro before between call node none_between added
    rw [answer_nextId, answer_of_added _ added, described_append, none_between, List.append_nil]
  · intro calls
    rw [build, snapshot_performAll]
  · intro before after id bytes fresh
    have beyond : (empty.performAll before).nodes.size ≤ id.index := by
      rw [size_performAll]
      exact le_index_of_not_issued fresh
    rw [performAll_append, performAll_append]
    change ((empty.performAll before).setSize id bytes).performAll after = _
    rw [setSize_of_beyond beyond]

def sketch : List Call :=
  [.setSize (.ofIndex 1) 8, .addClass "Leaf" none [], .nextId, .addObject (.ofIndex 0) [],
    .setSize (.ofIndex 1) 24, .setSize (.ofIndex 1) 40, .addRoot (.ofIndex 1)]

theorem drafts_follow_sketch :
    answer (sketch.take 3) (.addObject (.ofIndex 0) []) = some (.ofIndex 1) ∧
      answer (sketch.take 2) .nextId = answer (sketch.take 3) (.addObject (.ofIndex 0) []) ∧
      (empty.performAll sketch).build = Heap.ofSnapshot
        ⟨[⟨.classNode "Leaf" none none [], none, none⟩, ⟨.plain (.ofIndex 0) [], none, some 40⟩],
          [.ofIndex 1]⟩ ∧
      empty.performAll sketch = empty.performAll sketch.tail ∧
      ((empty.performAll sketch).setSize (.ofIndex 1) 56).nodes[0]? =
        (empty.performAll sketch).nodes[0]? := by
  obtain ⟨numbered, announced, built, ignored, sets⟩ := drafts_follow_calls
  exact ⟨numbered (sketch.take 3) (.addObject (.ofIndex 0) []) _ rfl,
    announced (sketch.take 2) [.nextId] (.addObject (.ofIndex 0) []) _ rfl rfl, built sketch,
    ignored [] sketch.tail (.ofIndex 1) 8 (by decide),
    (sets (empty.performAll sketch) (.ofIndex 1) 56).others 0 (by decide)⟩

end HeapLens.Draft
