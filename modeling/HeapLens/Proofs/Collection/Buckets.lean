import HeapLens.Proofs.Collection.Reading
import HeapLens.Proofs.Heap.Answers
import HeapLens.Proofs.Store.Contents
import Mathlib.Logic.Function.Iterate

/-!
# Walks through buckets

The entries of a map hang in chains on the slots of an array. A walk visits chain after chain, and
it may go on for ever, since chains can come back to themselves or run into each other. What is
yielded is the walk up to the first entry that it visits again.
-/

set_option autoImplicit false

namespace HeapLens

namespace Heap

def pairAt (h : Heap) (e : NodeId) : Cell × Cell :=
  ((h.field? e "key").getD .null, ((h.field? e "value").or (h.field? e "val")).getD .null)

/-- The first entries of the chains of a map. -/
def chainHeads (h : Heap) (m : NodeId) (tableField : String) : List NodeId :=
  (h.ref? m tableField).elim [] fun table => (h.slotsOf table).filterMap Cell.ref?

/-- A walk is at the first entry of its agenda. The rest of the chain comes before other chains. -/
def advance (h : Heap) : List NodeId → List NodeId
  | [] => []
  | e :: chains => (h.ref? e "next").toList ++ chains

/-- The entry that a walk visits after `k` steps. -/
def visit? (h : Heap) (agenda : List NodeId) (k : Nat) : Option NodeId :=
  (h.advance^[k] agenda).head?

/-- What a walk yields that has seen some entries and has an agenda of chains before it. -/
inductive Yields (h : Heap) :
    List NodeId → List NodeId → List (Except Fault (Cell × Cell)) → Prop
  | done {seen : List NodeId} : Yields h seen [] []
  | back {seen chains : List NodeId} {e : NodeId} : e ∈ seen →
    Yields h seen (e :: chains) [.error (.corrupt .cyclicBuckets)]
  | visit {seen chains : List NodeId} {e : NodeId} {items : List (Except Fault (Cell × Cell))} :
    e ∉ seen → Yields h (e :: seen) (h.advance (e :: chains)) items →
      Yields h seen (e :: chains) (.ok (h.pairAt e) :: items)

variable {s : Snapshot} {h : Heap} {e m n : NodeId} {seen agenda chains : List NodeId}

theorem readEntry_eq (has : h.Has e) :
    h.store.readEntry e = .ok (h.pairAt e, h.ref? e "next") := by
  simp only [Store.readEntry, readField_eq has, readRef_eq has, ok_bind, pairAt,
    Option.orElse_eq_orElse, Option.orElse_eq_or]

namespace Sound

theorem chainEntries_yields (sound : h.Sound) {after : Trace → Store.Entries} (seen : Trace)
    (later : ∀ seen, h.Yields seen.nodes chains (after seen).toList) (has : h.Has e) :
    h.Yields seen.nodes (e :: chains) (h.store.chainEntries after seen e).toList := by
  fun_induction Store.chainEntries h.store after seen e with
  | case1 seen e fresh fault read =>
    rw [readEntry_eq has] at read
    cases read
  | case2 seen e fresh pair read =>
    obtain ⟨rfl, next⟩ := Prod.mk.inj (Except.ok.inj ((readEntry_eq has).symm.trans read))
    refine .visit fresh ?_
    simpa [advance, next, Trace.add] using later (seen.add e fresh)
  | case3 seen e fresh pair d read ih =>
    obtain ⟨rfl, next⟩ := Prod.mk.inj (Except.ok.inj ((readEntry_eq has).symm.trans read))
    refine .visit fresh ?_
    simpa [advance, next, Trace.add] using ih (sound.has_of_ref? next)
  | case4 seen e old => exact .back (Decidable.not_not.mp old)

theorem bucketsFrom_yields (sound : h.Sound) {table : NodeId} (has : h.Has table) {count i : Nat}
    (seen : Trace) (total : i + count = (h.slotsOf table).length) :
    h.Yields seen.nodes (((h.slotsOf table).drop i).filterMap Cell.ref?)
      (h.store.bucketsFrom table count i seen).toList := by
  induction count generalizing i seen with
  | zero =>
    rw [List.drop_eq_nil_of_le (by omega)]
    exact .done
  | succ count ih =>
    have low : i < (h.slotsOf table).length := by omega
    have later (seen : Trace) := ih (i := i + 1) seen (by omega)
    rw [List.drop_eq_getElem_cons low, List.filterMap_cons, Store.bucketsFrom, slot_eq has low]
    cases cell : (h.slotsOf table)[i] with
    | ref first =>
      have has_first := sound.hasTarget_of_mem_slotsOf (List.getElem_mem low) first cell
      exact sound.chainEntries_yields seen later has_first
    | _ => exact later seen

theorem tableEntries_yields (sound : h.Sound) (has : h.Has m) (tableField : String) :
    ∃ w, Strategy.tableEntries tableField h.store m = .ok w ∧
      h.Yields [] (h.chainHeads m tableField) w.toList := by
  rw [Strategy.tableEntries, readRef_eq has, chainHeads]
  cases at_m : h.ref? m tableField with
  | none => exact ⟨_, rfl, .done⟩
  | some table =>
    have has_table := sound.has_of_ref? at_m
    refine ⟨h.store.bucketsFrom table (h.slotsOf table).length 0 .empty, ?_, ?_⟩
    · simp only [ok_bind, Store.buckets, lengthOf_eq has_table, Option.getD_some]
    · exact sound.bucketsFrom_yields has_table .empty (Nat.zero_add _)

end Sound

theorem Sound.advance_has (sound : h.Sound) (exist : ∀ e ∈ agenda, h.Has e) :
    ∀ e ∈ h.advance agenda, h.Has e := by
  cases agenda with
  | nil => nofun
  | cons e chains =>
    intro d mem
    rcases List.mem_append.mp mem with next | later
    · exact sound.has_of_ref? (Option.mem_toList.mp next)
    · exact exist d (List.mem_cons_of_mem _ later)

theorem Sound.visit?_has (sound : h.Sound) {k : Nat} (exist : ∀ e ∈ agenda, h.Has e)
    (visited : h.visit? agenda k = some e) : h.Has e := by
  induction k generalizing agenda with
  | zero => exact exist e (List.mem_of_mem_head? visited)
  | succ k ih => exact ih (sound.advance_has exist) visited

theorem Sound.chainHeads_has (sound : h.Sound) (m : NodeId) (tableField : String) :
    ∀ e ∈ h.chainHeads m tableField, h.Has e := by
  intro e mem
  rw [chainHeads] at mem
  cases at_m : h.ref? m tableField with
  | none => simp [at_m] at mem
  | some table =>
    simp only [at_m, Option.elim_some, List.mem_filterMap] at mem
    obtain ⟨c, mem, refers⟩ := mem
    cases c <;> simp [Cell.ref?] at refers
    exact sound.hasTarget_of_mem_slotsOf mem e (by rw [refers])

def EndsAt (h : Heap) (seen agenda visited : List NodeId)
    (items : List (Except Fault (Cell × Cell))) : Prop :=
  (h.visit? agenda visited.length = none ∧ items = visited.map fun e => .ok (h.pairAt e)) ∨
    ∃ e, (e ∈ seen ∨ e ∈ visited) ∧ h.visit? agenda visited.length = some e ∧
      items = (visited.map fun e => .ok (h.pairAt e)) ++ [.error (.corrupt .cyclicBuckets)]

theorem Yields.eq_nil {items : List (Except Fault (Cell × Cell))} (yields : h.Yields seen [] items) :
    items = [] := by
  cases yields
  rfl

theorem Yields.exists_visited {items : List (Except Fault (Cell × Cell))}
    (yields : h.Yields seen agenda items) :
    ∃ visited : List NodeId, visited.Nodup ∧ (∀ e ∈ visited, e ∉ seen) ∧
      (∀ k (low : k < visited.length), h.visit? agenda k = some visited[k]) ∧
      h.EndsAt seen agenda visited items := by
  induction yields with
  | done => exact ⟨[], .nil, nofun, nofun, .inl ⟨rfl, rfl⟩⟩
  | @back seen chains e mem => exact ⟨[], .nil, nofun, nofun, .inr ⟨e, .inl mem, rfl, rfl⟩⟩
  | @visit seen chains e items fresh _ ih =>
    obtain ⟨visited, nodup, apart, visits, ends⟩ := ih
    refine ⟨e :: visited, ?_, ?_, ?_, ?_⟩
    · exact List.nodup_cons.mpr ⟨fun mem => apart e mem List.mem_cons_self, nodup⟩
    · intro d mem
      rcases List.mem_cons.mp mem with rfl | mem
      · exact fresh
      · exact fun old => apart d mem (List.mem_cons_of_mem _ old)
    · intro k low
      cases k with
      | zero => rfl
      | succ k => exact visits k (by simpa using low)
    · rcases ends with ⟨ended, rfl⟩ | ⟨d, back, again, rfl⟩
      · exact .inl ⟨ended, rfl⟩
      · refine .inr ⟨d, ?_, again, rfl⟩
        simpa [or_comm, or_assoc, or_left_comm] using back

/--
What a map in chains yields are the entries of its walk, one after the other and each of them once,
up to the end of the walk or to the first entry that it visits again, which is told by an error. The
chains hang on all slots of the table if there are fewer than 2^32. A set in the keys of the map
yields the keys of the same entries.
-/
theorem entries_follow_chains (accepted : ofSnapshot s = .ok h) (has : h.Has m)
    (sizeField tableField : String) :
    (Fault.corrupt .cyclicBuckets).message = "corruption: cyclic bucket chain" ∧
    (∀ table, h.ref? m tableField = some table → (h.cellsOf table).length < 4294967296 →
      h.chainHeads m tableField = (h.cellsOf table).filterMap Cell.ref?) ∧
    ∃ (w : Store.Entries) (visited : List NodeId),
      (Strategy.hashTable sizeField tableField).entries h.store m = .ok w ∧ visited.Nodup ∧
      (∀ k (low : k < visited.length),
        h.visit? (h.chainHeads m tableField) k = some visited[k]) ∧
      ((h.visit? (h.chainHeads m tableField) visited.length = none ∧
          w.toList = visited.map fun e => .ok (h.pairAt e)) ∨
        ∃ e ∈ visited, h.visit? (h.chainHeads m tableField) visited.length = some e ∧
          w.toList =
            (visited.map fun e => .ok (h.pairAt e)) ++ [.error (.corrupt .cyclicBuckets)]) ∧
      w.toList.length ≤ h.size + 1 ∧
      ∀ n mapField sizeField', h.Has n → h.ref? n mapField = some m →
        ∃ w', (Strategy.keySet mapField sizeField' tableField).elements h.store n = .ok w' ∧
          w'.toList = w.toList.map fun item => item.map Prod.fst := by
  have sound := sound_of_ofSnapshot accepted
  obtain ⟨w, read, yields⟩ := sound.tableEntries_yields has tableField
  obtain ⟨visited, nodup, -, visits, ends⟩ := yields.exists_visited
  have exist : ∀ e ∈ visited, h.Has e := by
    intro e mem
    obtain ⟨k, low, rfl⟩ := List.getElem_of_mem mem
    exact sound.visit?_has (sound.chainHeads_has m tableField) (visits k low)
  have few : visited.length ≤ h.size := NodeId.length_le_of_nodup nodup exist
  refine ⟨by decide, fun table refers short => ?_, w, visited, read, nodup, visits, ?_, ?_,
    fun n mapField sizeField' has_n refers => ?_⟩
  · rw [chainHeads, refers, Option.elim_some, slotsOf_eq_cellsOf short]
  · simpa [EndsAt, and_assoc] using ends
  · rcases ends with ⟨-, eq⟩ | ⟨e, -, -, eq⟩ <;> simp [eq] <;> omega
  · refine ⟨w.map fun item => item.map Prod.fst, ?_, Walk.toList_map _ _⟩
    have backing : Strategy.backingMap mapField h.store n = .ok m := by
      simp [Strategy.backingMap, readRef_eq has_n, refers]
    simp only [Strategy.keySet, backing, read, ok_bind]

/-- Of 2^32 slots none is read, although the walk over them comes to an entry. -/
theorem entries_hoard :
    ∃ h, ofSnapshot (hoard 4294967295) = .ok h ∧ h.Has ⟨2⟩ ∧ h.ref? ⟨2⟩ "table" = some ⟨3⟩ ∧
      (h.cellsOf ⟨3⟩).length = 4294967296 ∧
      h.visit? ((h.cellsOf ⟨3⟩).filterMap Cell.ref?) 0 = some ⟨4⟩ ∧
      ∃ w, (Strategy.hashTable "size" "table").entries h.store ⟨2⟩ = .ok w ∧ w.toList = [] := by
  obtain ⟨h, accepted⟩ := exists_of_valid (valid_hoard 4294967295)
  have sound := sound_of_ofSnapshot accepted
  have has : h.Has ⟨2⟩ := (has_iff_of_ofSnapshot accepted).mpr (by decide)
  have map := shape?_of_describes accepted (n := ⟨2⟩) rfl
  have table := shape?_of_describes accepted (n := ⟨3⟩) rfl
  have refers : h.ref? ⟨2⟩ "table" = some ⟨3⟩ := by
    rw [ref?, field?, fieldsOf, map]
    rfl
  have cells : h.cellsOf ⟨3⟩ = .ref ⟨4⟩ :: List.replicate 4294967295 .null := cellsOf_eq table
  have count : (h.cellsOf ⟨3⟩).length = 4294967296 := by
    rw [cells, List.length_cons, List.length_replicate]
  obtain ⟨w, read, yields⟩ := sound.tableEntries_yields has "table"
  rw [chainHeads, refers, Option.elim_some, slotsOf_eq_nil count] at yields
  refine ⟨h, accepted, has, refers, count, ?_, w, read, yields.eq_nil⟩
  rw [cells]
  rfl

def coil : Snapshot where
  nodes :=
    [⟨.classNode "Object" none none [], none, none⟩,
      ⟨.plain ⟨0⟩ [⟨"table", .ref ⟨2⟩, none⟩], none, none⟩,
      ⟨.array ⟨0⟩ [.null, .ref ⟨3⟩, .ref ⟨5⟩], none, none⟩,
      ⟨.plain ⟨0⟩ [⟨"key", .int 1, none⟩, ⟨"value", .null, none⟩, ⟨"val", .int 9, none⟩,
        ⟨"next", .ref ⟨4⟩, none⟩], none, none⟩,
      ⟨.plain ⟨0⟩ [⟨"key", .int 2, none⟩, ⟨"val", .int 8, none⟩, ⟨"next", .ref ⟨5⟩, none⟩],
        none, none⟩,
      ⟨.plain ⟨0⟩ [⟨"next", .ref ⟨4⟩, none⟩], none, none⟩,
      ⟨.plain ⟨0⟩ [⟨"map", .ref ⟨1⟩, none⟩], none, none⟩]
  roots := []

def coilHeap : Heap := assemble (recordsOfSnapshot coil) coil.roots

theorem ofSnapshot_coil : ofSnapshot coil = .ok coilHeap :=
  ofSnapshot_of_defect? (by decide +kernel)

theorem has_coil {i : UInt64} (few : i.toNat < 7) : coilHeap.Has ⟨i⟩ :=
  (has_iff_of_ofSnapshot ofSnapshot_coil).mpr few

theorem tableEntries_coil :
    (Strategy.tableEntries "table" coilHeap.store ⟨1⟩).map Walk.toList =
      .ok [.ok (.int 1, .null), .ok (.int 2, .int 8), .ok (.null, .null),
        .error (.corrupt .cyclicBuckets)] := by
  decide +kernel

theorem entries_coil :
    ofSnapshot coil = .ok coilHeap ∧ coilHeap.Has ⟨1⟩ ∧ coilHeap.Has ⟨6⟩ ∧
      coilHeap.ref? ⟨6⟩ "map" = some ⟨1⟩ ∧
      ∃ visited : List NodeId, visited.length = 3 ∧
        (∃ e ∈ visited, coilHeap.visit? (coilHeap.chainHeads ⟨1⟩ "table") 3 = some e) ∧
        ∃ w, (Strategy.keySet "map" "size" "table").elements coilHeap.store ⟨6⟩ = .ok w ∧
          w.toList = [.ok (.int 1), .ok (.int 2), .ok .null, .error (.corrupt .cyclicBuckets)] := by
  have refers : coilHeap.ref? ⟨6⟩ "map" = some ⟨1⟩ := by decide +kernel
  refine ⟨ofSnapshot_coil, has_coil (by decide), has_coil (by decide), refers, ?_⟩
  obtain ⟨-, -, w, visited, read, -, -, ends, -, keys⟩ :=
    entries_follow_chains ofSnapshot_coil (has_coil (i := 1) (by decide)) "size" "table"
  have walk : w.toList = [.ok (.int 1, .null), .ok (.int 2, .int 8), .ok (.null, .null),
      .error (.corrupt .cyclicBuckets)] := by
    have table := tableEntries_coil
    rw [show Strategy.tableEntries "table" coilHeap.store ⟨1⟩ = .ok w from read] at table
    exact Except.ok.inj table
  obtain ⟨w', read', eq⟩ := keys ⟨6⟩ "map" "size" (has_coil (by decide)) refers
  rcases ends with ⟨-, all⟩ | ⟨e, mem, again, all⟩
  · have fault : .error (.corrupt .cyclicBuckets) ∈ w.toList := by simp [walk]
    simp [all] at fault
  · have count : visited.length = 3 := by
      have length := congrArg List.length all
      simpa [walk] using length.symm
    exact ⟨visited, count, ⟨e, mem, count ▸ again⟩, w', read', by simp [eq, walk, Except.map]⟩

end Heap

end HeapLens
