import HeapLens.Proofs.Heap.Validation
import HeapLens.Proofs.Loop

set_option autoImplicit false

namespace HeapLens.Hierarchy

variable {parent : Nat → Option Nat} {count : Nat}

def Cyclic (parent : Nat → Option Nat) (v : Nat) : Prop :=
  ∃ w, Relation.ReflTransGen (Step parent) v w ∧ OnCycle parent w

theorem Ends.onward {v w : Nat} (h : Ends parent v)
    (path : Relation.ReflTransGen (Step parent) v w) : Ends parent w := by
  induction path with
  | refl => exact h
  | tail _ edge ih =>
    cases ih with
    | last none_v =>
      rw [Step, none_v] at edge
      cases edge
    | step edge' rest =>
      obtain rfl := edge.unique edge'
      exact rest

theorem Ends.not_cyclic {v : Nat} (h : Ends parent v) : ¬Cyclic parent v :=
  fun ⟨_, path, cycle⟩ => (h.onward path).not_onCycle cycle

theorem EntersAt.cyclic {v w : Nat} (h : EntersAt parent v w) : Cyclic parent v := by
  obtain ⟨passed, trail, _⟩ := h.before
  exact ⟨w, trail.path, h.onCycle⟩

theorem isSome_findCycle_iff (range : ∀ u w, parent u = some w → u < count → w < count) :
    (findCycle parent count).isSome ↔ ∃ v < count, Cyclic parent v := by
  have outcome := findCycle_entersAt range
  revert outcome
  cases findCycle parent count with
  | some w =>
    rintro ⟨v, low, enters, _⟩
    exact iff_of_true rfl ⟨v, low, enters.cyclic⟩
  | none =>
    intro ends
    refine iff_of_false (by simp) ?_
    rintro ⟨v, low, cyclic⟩
    exact (ends v low).not_cyclic cyclic

theorem exists_entersAt_of_findCycle (range : ∀ u w, parent u = some w → u < count → w < count)
    {w : Nat} (found : findCycle parent count = some w) :
    ∃ v < count, Cyclic parent v ∧ (∀ u < v, ¬Cyclic parent u) ∧ EntersAt parent v w := by
  have outcome := findCycle_entersAt range
  rw [found] at outcome
  obtain ⟨v, low, enters, ends⟩ := outcome
  exact ⟨v, low, enters.cyclic, fun u lower => (ends u lower).not_cyclic, enters⟩

inductive Stage where
  | between (marks : Array Mark) (next : Nat)
  | climbing (c : Climb) (v start : Nat)
  | stopped (v : Nat)

def Stage.first (count : Nat) : Stage := .between (Array.replicate count .fresh) 0

/-- A turn of the search through `count` nodes; a node without a mark allows none. -/
inductive Turn (parent : Nat → Option Nat) (count : Nat) : Stage → Stage → Prop where
  | start {marks : Array Mark} {next : Nat} (low : next < count) :
    Turn parent count (.between marks next) (.climbing ⟨marks, []⟩ next next)
  | up {c : Climb} {v w start : Nat} (bound : v < c.marks.size) (isFresh : c.marks[v] = .fresh)
    (edge : parent v = some w) :
    Turn parent count (.climbing c v start) (.climbing (c.meet v bound) w start)
  | reach {c : Climb} {v start : Nat} (bound : v < c.marks.size) (isFresh : c.marks[v] = .fresh)
    (last : parent v = none) :
    Turn parent count (.climbing c v start) (.between (clear (c.meet v bound)) (start + 1))
  | join {c : Climb} {v start : Nat} (bound : v < c.marks.size) (isCleared : c.marks[v] = .cleared) :
    Turn parent count (.climbing c v start) (.between (clear c) (start + 1))
  | stop {c : Climb} {v start : Nat} (bound : v < c.marks.size) (isMet : c.marks[v] = .climbing) :
    Turn parent count (.climbing c v start) (.stopped v)

theorem Turn.unique {s t t' : Stage} (turn : Turn parent count s t) (turn' : Turn parent count s t') :
    t' = t := by
  cases turn <;> cases turn' <;> simp_all

theorem Turn.finishes {s t u : Stage} (turn : Turn parent count s t)
    (rest : Finishes (Turn parent count) t u) : Finishes (Turn parent count) s u :=
  .turn turn (fun _ => turn.unique) rest

theorem finishes_stopped (v : Nat) : Finishes (Turn parent count) (.stopped v) (.stopped v) := by
  refine .stop fun t turn => ?_
  cases turn

theorem finishes_between (marks : Array Mark) :
    Finishes (Turn parent count) (.between marks count) (.between marks count) := by
  refine .stop fun t turn => ?_
  cases turn with
  | start low => exact Nat.lt_irrefl count low

/-- The steps of `climb` are turns: they stop at the node met twice, or lead to the next climb. -/
theorem climb_finishes {c : Climb} {v : Nat} (count start : Nat) (bound : v < c.marks.size)
    (range : ∀ u w, parent u = some w → u < c.marks.size → w < c.marks.size) :
    Outcome
      (fun c' => ∀ s, Finishes (Turn parent count) (.between (clear c') (start + 1)) s →
        Finishes (Turn parent count) (.climbing c v start) s)
      (fun w => Finishes (Turn parent count) (.climbing c v start) (.stopped w))
      (climb parent c v) := by
  fun_induction climb parent c v with
  | case1 c v isFresh c' last =>
    intro s rest
    have turn : Turn parent count (.climbing c v start) (.between (clear c') (start + 1)) :=
      .reach bound isFresh.2 last
    exact turn.finishes rest
  | case2 c v isFresh c' w edge ih =>
    have size_eq : c'.marks.size = c.marks.size := Array.size_set bound
    have turn : Turn parent count (.climbing c v start) (.climbing c' w start) :=
      .up bound isFresh.2 edge
    have further := ih (size_eq ▸ range v w edge bound) (by rwa [size_eq])
    exact further.mono (fun _ later s rest => turn.finishes (later s rest)) fun _ => turn.finishes
  | case3 c v _ met =>
    have isMet : c.marks[v] = .climbing := by
      rwa [Array.getElem?_eq_getElem bound, Option.some_inj] at met
    have turn : Turn parent count (.climbing c v start) (.stopped v) := .stop bound isMet
    exact turn.finishes (finishes_stopped v)
  | case4 c v notFresh notMet =>
    intro s rest
    have turn : Turn parent count (.climbing c v start) (.between (clear c) (start + 1)) :=
      .join bound (Climb.cleared_of_not bound notFresh notMet)
    exact turn.finishes rest

theorem climbAll_finishes {marks : Array Mark} (next : Nat) {left : Nat}
    (settled : Settled parent marks) (size_eq : marks.size = count) (total : next + left = count)
    (range : ∀ u w, parent u = some w → u < count → w < count) :
    Outcome (fun marks' => Finishes (Turn parent count) (.between marks next) (.between marks' count))
      (fun w => Finishes (Turn parent count) (.between marks next) (.stopped w))
      (climbAll parent marks (List.range' next left)) := by
  induction left generalizing marks next with
  | zero =>
    obtain rfl : next = count := total
    exact finishes_between marks
  | succ left ih =>
    have low : next < count := by omega
    have turn : Turn parent count (.between marks next) (.climbing ⟨marks, []⟩ next next) :=
      .start low
    have bound : next < marks.size := size_eq ▸ low
    have range' : ∀ u w, parent u = some w → u < marks.size → w < marks.size := by
      rwa [size_eq]
    rw [List.range'_succ, climbAll_cons]
    have one := (climb_outcome settled.marked .here bound range').and
      (climb_finishes count next bound range')
    refine (one.mono (fun _ => id) fun w stopped => ?_).bind fun c climbed => ?_
    · exact turn.finishes stopped.2
    · have size_eq' : (clear c).size = count := by
        rw [size_clear, climbed.1.size_eq, size_eq]
      have others := ih (next + 1) climbed.1.settled size_eq' (by omega)
      exact others.mono (fun _ rest => turn.finishes (climbed.2 _ rest))
        fun _ rest => turn.finishes (climbed.2 _ rest)

theorem findCycle_finishes (range : ∀ u w, parent u = some w → u < count → w < count) :
    Search (fun w => Finishes (Turn parent count) (.first count) (.stopped w))
      (∃ marks, Finishes (Turn parent count) (.first count) (.between marks count))
      (findCycle parent count) := by
  have all := climbAll_finishes 0 (settled_replicate parent count) Array.size_replicate
    (Nat.zero_add count) range
  rw [← List.range_eq_range'] at all
  rw [findCycle]
  revert all
  cases climbAll parent (Array.replicate count .fresh) (List.range count) with
  | error w => exact id
  | ok marks => exact fun rest => ⟨marks, rest⟩

end HeapLens.Hierarchy

namespace HeapLens.Heap

open Hierarchy

variable {records : Array Record}

theorem parentIndex_inRange
    (range : ∀ r ∈ records, ∀ id ∈ r.shape.superclass?, id.index < records.size) (v w : Nat)
    (edge : parentIndex records v = some w) (_ : v < records.size) : w < records.size := by
  obtain ⟨r, id, found, given, rfl⟩ := step_parentIndex_iff.mp edge
  exact range r (Array.mem_of_getElem? found) id given

theorem message_of_onCycle {w : Nat} (cycle : OnCycle (parentIndex records) w) :
    (Defect.cyclicHierarchy (.ofIndex w)).message =
      "invalid snapshot: superclass chain of node #" ++ String.ofList (Text.decimal w) ++
        " is cyclic" := by
  obtain ⟨v, _, edge⟩ := Relation.TransGen.tail'_iff.mp cycle
  obtain ⟨r, id, _, _, rfl⟩ := step_parentIndex_iff.mp edge
  have named : "invalid snapshot: superclass chain of node " ++ id.label =
      "invalid snapshot: superclass chain of node #" ++ String.ofList (Text.decimal id.index) :=
    NodeId.append_label _ id
  rw [NodeId.ofIndex_index, ← named]
  rfl

/--
Where all superclasses are nodes, the search for cycles finishes. It stops at a node exactly if some
chain is cyclic, and this node, which the refusal names, lies on a cycle itself: it is the first one
to do so on the chain of the lowest node whose chain is cyclic.
-/
theorem search_stops_at_first_cycle
    (range : ∀ r ∈ records, ∀ id ∈ r.shape.superclass?, id.index < records.size) :
    Search
        (fun w => Finishes (Turn (parentIndex records) records.size) (.first records.size)
          (.stopped w))
        (∃ marks, Finishes (Turn (parentIndex records) records.size) (.first records.size)
          (.between marks records.size))
        (findCycle (parentIndex records) records.size) ∧
      ((findCycle (parentIndex records) records.size).isSome ↔
        ∃ v < records.size, Cyclic (parentIndex records) v) ∧
      ∀ w, findCycle (parentIndex records) records.size = some w →
        (Defect.cyclicHierarchy (.ofIndex w)).message =
            "invalid snapshot: superclass chain of node #" ++ String.ofList (Text.decimal w) ++
              " is cyclic" ∧
          OnCycle (parentIndex records) w ∧
          ∃ v < records.size, Cyclic (parentIndex records) v ∧
            (∀ u < v, ¬Cyclic (parentIndex records) u) ∧ EntersAt (parentIndex records) v w := by
  have inRange := parentIndex_inRange range
  refine ⟨findCycle_finishes inRange, isSome_findCycle_iff inRange, fun w found => ?_⟩
  obtain ⟨v, low, cyclic, lowest, enters⟩ := exists_entersAt_of_findCycle inRange found
  exact ⟨message_of_onCycle enters.onCycle, enters.onCycle, v, low, cyclic, lowest, enters⟩

def tangle : Array Record :=
  (recordsOf <|
    [none, some ⟨0⟩, some ⟨5⟩, some ⟨4⟩, some ⟨3⟩, some ⟨7⟩, some ⟨5⟩, some ⟨6⟩, some ⟨2⟩].map
      fun parent => ⟨.classNode "Link" parent none [], none, none⟩).toArray

theorem search_stops_tangle :
    defect? tangle [] = some (.cyclicHierarchy ⟨5⟩) ∧
      (Defect.cyclicHierarchy ⟨5⟩).message =
        "invalid snapshot: superclass chain of node #5 is cyclic" ∧
      Finishes (Turn (parentIndex tangle) 9) (.first 9) (.stopped 5) ∧
      (∀ u < 2, ¬Cyclic (parentIndex tangle) u) ∧ EntersAt (parentIndex tangle) 2 5 := by
  have range : ∀ r ∈ tangle, ∀ id ∈ r.shape.superclass?, id.index < tangle.size := by
    decide +kernel
  have found : findCycle (parentIndex tangle) tangle.size = some 5 := by decide +kernel
  obtain ⟨finishes, _, named⟩ := search_stops_at_first_cycle range
  obtain ⟨message, onCycle, v, _, cyclic_v, lowest, enters⟩ := named 5 found
  rw [found] at finishes
  have base : Ends (parentIndex tangle) 0 := .last (by decide +kernel)
  have derived : Ends (parentIndex tangle) 1 :=
    .step (by decide +kernel : parentIndex tangle 1 = some 0) base
  have below : ∀ u < 2, ¬Cyclic (parentIndex tangle) u
    | 0, _ => base.not_cyclic
    | 1, _ => derived.not_cyclic
  have cyclic : Cyclic (parentIndex tangle) 2 :=
    ⟨5, .single (by decide +kernel : parentIndex tangle 2 = some 5), onCycle⟩
  obtain rfl : v = 2 := by
    have upper : ¬2 < v := fun higher => lowest 2 higher cyclic
    have lower : ¬v < 2 := fun less => below v less cyclic_v
    omega
  exact ⟨by decide +kernel, message, finishes, below, enters⟩

end HeapLens.Heap
