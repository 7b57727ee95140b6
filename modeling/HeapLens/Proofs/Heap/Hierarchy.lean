import HeapLens.Heap.Hierarchy
import HeapLens.Proofs.Outcome
import Mathlib.Logic.Relation

set_option autoImplicit false

namespace HeapLens.Hierarchy

variable {parent : Nat → Option Nat}

/-- Whether the second node is the superclass of the first one. -/
def Step (parent : Nat → Option Nat) (v w : Nat) : Prop := parent v = some w

theorem Step.unique {v w x : Nat} (edge : Step parent v w) (edge' : Step parent v x) : w = x :=
  Option.some.inj (edge.symm.trans edge')

def OnCycle (parent : Nat → Option Nat) (v : Nat) : Prop := Relation.TransGen (Step parent) v v

inductive Ends (parent : Nat → Option Nat) : Nat → Prop where
  | last {v : Nat} : parent v = none → Ends parent v
  | step {v w : Nat} : Step parent v w → Ends parent w → Ends parent v

theorem ends_of_leads {v w : Nat} (path : Relation.ReflTransGen (Step parent) v w)
    (h : Ends parent w) : Ends parent v := by
  induction path using Relation.ReflTransGen.head_induction_on with
  | refl => exact h
  | head edge _ ih => exact .step edge ih

theorem Ends.not_onCycle {v : Nat} (h : Ends parent v) : ¬OnCycle parent v := by
  induction h with
  | last none_v =>
    intro cycle
    obtain ⟨w, edge, _⟩ := Relation.TransGen.head'_iff.mp cycle
    rw [Step, none_v] at edge
    cases edge
  | step edge _ ih =>
    intro cycle
    obtain ⟨w, edge', back⟩ := Relation.TransGen.head'_iff.mp cycle
    obtain rfl := edge.unique edge'
    exact ih (Relation.TransGen.tail' back edge)

theorem OnCycle.leads_back {v w : Nat} (cycle : OnCycle parent v)
    (path : Relation.ReflTransGen (Step parent) v w) : Relation.ReflTransGen (Step parent) w v := by
  induction path with
  | refl => exact .refl
  | tail _ edge ih =>
    rcases ih.cases_head with rfl | ⟨x, edge', back⟩
    · obtain ⟨x, edge', back⟩ := Relation.TransGen.head'_iff.mp cycle
      obtain rfl := edge.unique edge'
      exact back
    · obtain rfl := edge.unique edge'
      exact back

/--
Whether the chain from `start` leads to a node past the nodes of a list, of which the first one has
been passed last.
-/
inductive Trail (parent : Nat → Option Nat) (start : Nat) : List Nat → Nat → Prop where
  | here : Trail parent start [] start
  | up {passed : List Nat} {v w : Nat} : Trail parent start passed v → Step parent v w →
    Trail parent start (v :: passed) w

/-- Whether `w` is the first node on a cycle that the chain from `start` meets. -/
structure EntersAt (parent : Nat → Option Nat) (start w : Nat) : Prop where
  onCycle : OnCycle parent w
  before : ∃ passed, Trail parent start passed w ∧ ∀ v ∈ passed, ¬OnCycle parent v

namespace Trail

variable {start v w x : Nat} {passed later : List Nat}

theorem leads (trail : Trail parent start passed v) :
    ∀ w ∈ passed, Relation.TransGen (Step parent) w v := by
  induction trail with
  | here => exact fun w mem => absurd mem List.not_mem_nil
  | up _ edge ih =>
    intro w mem
    rcases List.mem_cons.mp mem with rfl | old
    · exact .single edge
    · exact (ih w old).tail edge

theorem path (trail : Trail parent start passed v) :
    Relation.ReflTransGen (Step parent) start v := by
  induction trail with
  | here => exact .refl
  | up _ edge ih => exact ih.tail edge

theorem ends (trail : Trail parent start passed v) (end_v : Ends parent v) :
    ∀ w ∈ passed, Ends parent w :=
  fun w mem => ends_of_leads (trail.leads w mem).to_reflTransGen end_v

theorem split (trail : Trail parent start (later ++ v :: passed) w) :
    Trail parent start passed v ∧ Trail parent v (later ++ [v]) w := by
  induction later generalizing w with
  | nil =>
    cases trail with
    | up first edge => exact ⟨first, .up .here edge⟩
  | cons x later ih =>
    cases trail with
    | up before edge =>
      obtain ⟨first, second⟩ := ih before
      exact ⟨first, .up second edge⟩

theorem mem_of_step (trail : Trail parent start passed v) (mem : w ∈ passed)
    (edge : Step parent w x) : x = v ∨ x ∈ passed := by
  induction trail with
  | here => cases mem
  | up _ edge' ih =>
    rcases List.mem_cons.mp mem with rfl | old
    · exact .inl (edge.unique edge')
    · exact .inr (List.mem_cons.mpr (ih old))

theorem mem_of_leads (trail : Trail parent start passed v) (again : v ∈ passed)
    (path : Relation.ReflTransGen (Step parent) v w) : w ∈ passed := by
  induction path with
  | refl => exact again
  | tail _ edge ih =>
    rcases trail.mem_of_step ih edge with rfl | old
    · exact again
    · exact old

theorem entersAt (trail : Trail parent start passed v) (distinct : passed.Nodup)
    (again : v ∈ passed) : EntersAt parent start v := by
  obtain ⟨later, earlier, rfl⟩ := List.append_of_mem again
  obtain ⟨approach, round⟩ := trail.split
  refine ⟨trail.leads v again, earlier, approach, fun w early cycle => ?_⟩
  have back := cycle.leads_back (approach.leads w early).to_reflTransGen
  have late : w ∈ later ++ [v] := round.mem_of_leads (by simp) back
  rw [List.append_cons] at distinct
  exact (List.nodup_append.mp distinct).2.2 w late w early rfl

end Trail

/-- What the marks say between two climbs. -/
structure Settled (parent : Nat → Option Nat) (marks : Array Mark) : Prop where
  idle : ∀ v : Nat, marks[v]? ≠ some .climbing
  ends : ∀ v : Nat, marks[v]? = some .cleared → Ends parent v

structure Marked (parent : Nat → Option Nat) (c : Climb) : Prop where
  met_iff : ∀ w : Nat, c.marks[w]? = some .climbing ↔ w ∈ c.met
  distinct : c.met.Nodup
  ends : ∀ w : Nat, c.marks[w]? = some .cleared → Ends parent w

def Climb.meet (c : Climb) (v : Nat) (bound : v < c.marks.size) : Climb :=
  ⟨c.marks.set v .climbing bound, v :: c.met⟩

theorem Marked.meet {c : Climb} {v : Nat} (h : Marked parent c) (bound : v < c.marks.size)
    (isFresh : c.marks[v] = .fresh) : Marked parent (c.meet v bound) where
  met_iff x := by
    rw [Climb.meet, Array.getElem?_set, List.mem_cons, ← h.met_iff]
    by_cases eq : v = x
    · simp [eq]
    · simp [eq, Ne.symm eq]
  distinct := by
    refine List.nodup_cons.mpr ⟨fun old => ?_, h.distinct⟩
    have met := (h.met_iff v).mpr old
    rw [Array.getElem?_eq_getElem bound, isFresh] at met
    cases met
  ends x hx := by
    rw [Climb.meet, Array.getElem?_set] at hx
    split at hx
    · cases hx
    · exact h.ends x hx

structure Climbed (parent : Nat → Option Nat) (before after : Climb) (v : Nat) : Prop
    extends Marked parent after where
  size_eq : after.marks.size = before.marks.size
  met_ends : ∀ w ∈ after.met, Ends parent w
  start_ends : Ends parent v

theorem Climb.cleared_of_not {c : Climb} {v : Nat} (bound : v < c.marks.size)
    (notFresh : ¬∃ bound : v < c.marks.size, c.marks[v] = .fresh)
    (notMet : ¬c.marks[v]? = some .climbing) : c.marks[v] = .cleared := by
  cases eq : c.marks[v] with
  | fresh => exact absurd ⟨bound, eq⟩ notFresh
  | climbing => simp [Array.getElem?_eq_getElem bound, eq] at notMet
  | cleared => rfl

/-- A climb ends at the first node on a cycle, or everything that it has met ends. -/
theorem climb_outcome {c : Climb} {v start : Nat} (marked : Marked parent c)
    (trail : Trail parent start c.met v) (bound : v < c.marks.size)
    (range : ∀ u w, parent u = some w → u < c.marks.size → w < c.marks.size) :
    Outcome (fun c' => Climbed parent c c' v) (EntersAt parent start) (climb parent c v) := by
  fun_induction climb parent c v with
  | case1 c v isFresh c' none_v =>
    have met : ∀ w ∈ c'.met, Ends parent w := by
      intro w hw
      rcases List.mem_cons.mp hw with rfl | old
      · exact .last none_v
      · exact trail.ends (.last none_v) w old
    exact
      { toMarked := marked.meet bound isFresh.2
        size_eq := Array.size_set bound
        met_ends := met
        start_ends := .last none_v }
  | case2 c v isFresh c' w edge ih =>
    have size_eq : c'.marks.size = c.marks.size := Array.size_set bound
    have further := ih (marked.meet bound isFresh.2) (trail.up edge)
      (size_eq ▸ range v w edge bound) (by rwa [size_eq])
    refine further.mono (fun c'' done => ?_) fun _ => id
    exact
      { toMarked := done.toMarked
        size_eq := done.size_eq.trans size_eq
        met_ends := done.met_ends
        start_ends := .step edge done.start_ends }
  | case3 c v _ met => exact trail.entersAt marked.distinct ((marked.met_iff v).mp met)
  | case4 c v notFresh notMet =>
    have cleared : c.marks[v]? = some .cleared := by
      rw [Array.getElem?_eq_getElem bound, Climb.cleared_of_not bound notFresh notMet]
    exact
      { toMarked := marked
        size_eq := rfl
        met_ends := trail.ends (marked.ends v cleared)
        start_ends := marked.ends v cleared }

theorem getElem?_clear (marks : Array Mark) (met : List Nat) (v : Nat) :
    (met.foldl (fun marks v => marks.setIfInBounds v .cleared) marks)[v]? =
      if v ∈ met then marks[v]?.map fun _ => .cleared else marks[v]? := by
  induction met generalizing marks with
  | nil => simp
  | cons w met ih =>
    rw [List.foldl_cons, ih, Array.getElem?_setIfInBounds]
    by_cases eq : w = v
    · subst eq
      by_cases bound : w < marks.size <;> simp [bound]
    · simp [eq, Ne.symm eq]

theorem Climbed.settled {before after : Climb} {v : Nat} (h : Climbed parent before after v) :
    Settled parent (clear after) where
  idle w := by
    rw [clear, getElem?_clear]
    split
    · simp
    · rename_i out
      exact fun met => out ((h.met_iff w).mp met)
  ends w hw := by
    rw [clear, getElem?_clear] at hw
    split at hw
    · rename_i met
      exact h.met_ends w met
    · exact h.ends w hw

theorem size_clear (c : Climb) : (clear c).size = c.marks.size := by
  have general (marks : Array Mark) (met : List Nat) :
      (met.foldl (fun marks v => marks.setIfInBounds v Mark.cleared) marks).size =
        marks.size := by
    induction met generalizing marks with
    | nil => rfl
    | cons w met ih => rw [List.foldl_cons, ih, Array.size_setIfInBounds]
  exact general c.marks c.met

theorem climbAll_cons (marks : Array Mark) (v : Nat) (rest : List Nat) :
    climbAll parent marks (v :: rest) =
      climb parent ⟨marks, []⟩ v >>= fun c => climbAll parent (clear c) rest := by
  rw [climbAll]
  cases climb parent ⟨marks, []⟩ v <;> rfl

theorem Settled.marked {marks : Array Mark} (h : Settled parent marks) :
    Marked parent ⟨marks, []⟩ where
  met_iff w := by simpa using h.idle w
  distinct := List.nodup_nil
  ends := h.ends

theorem settled_replicate (parent : Nat → Option Nat) (count : Nat) :
    Settled parent (Array.replicate count .fresh) where
  idle v := by
    rw [Array.getElem?_replicate]
    split <;> simp
  ends v hv := by
    rw [Array.getElem?_replicate] at hv
    split at hv <;> simp at hv

theorem climbAll_outcome {marks : Array Mark} (settled : Settled parent marks)
    (nodes : List Nat) (ordered : nodes.Pairwise (· < ·)) (bound : ∀ v ∈ nodes, v < marks.size)
    (range : ∀ u w, parent u = some w → u < marks.size → w < marks.size) :
    Outcome (fun _ => ∀ v ∈ nodes, Ends parent v)
      (fun w => ∃ v ∈ nodes, EntersAt parent v w ∧ ∀ u ∈ nodes, u < v → Ends parent u)
      (climbAll parent marks nodes) := by
  induction nodes generalizing marks with
  | nil => exact fun v mem => absurd mem List.not_mem_nil
  | cons v rest ih =>
    obtain ⟨least, ordered⟩ := List.pairwise_cons.mp ordered
    have one := climb_outcome settled.marked .here (bound v List.mem_cons_self) range
    rw [climbAll_cons]
    refine (one.mono (fun _ => id) fun w enters => ?_).bind fun c climbed => ?_
    · refine ⟨v, List.mem_cons_self, enters, fun u mem lower => ?_⟩
      rcases List.mem_cons.mp mem with rfl | mem
      · exact absurd lower (Nat.lt_irrefl u)
      · exact absurd lower (Nat.lt_asymm (least u mem))
    · have size_eq : (clear c).size = marks.size := (size_clear c).trans climbed.size_eq
      have others := ih climbed.settled ordered
        (fun w mem => size_eq ▸ bound w (List.mem_cons_of_mem v mem)) (by rwa [size_eq])
      refine others.mono (fun _ ends => List.forall_mem_cons.mpr ⟨climbed.start_ends, ends⟩) ?_
      rintro w ⟨x, mem, enters, ends⟩
      exact ⟨x, List.mem_cons_of_mem v mem, enters,
        List.forall_mem_cons.mpr ⟨fun _ => climbed.start_ends, ends⟩⟩

theorem findCycle_entersAt {count : Nat}
    (range : ∀ u w, parent u = some w → u < count → w < count) :
    Search (fun w => ∃ v < count, EntersAt parent v w ∧ ∀ u < v, Ends parent u)
      (∀ v < count, Ends parent v) (findCycle parent count) := by
  have all := climbAll_outcome (settled_replicate parent count) (List.range count)
    List.pairwise_lt_range (by simp) (by simpa using range)
  rw [findCycle]
  revert all
  cases climbAll parent (Array.replicate count .fresh) (List.range count) with
  | error w =>
    rintro ⟨v, low, enters, ends⟩
    rw [List.mem_range] at low
    exact ⟨v, low, enters, fun u lower => ends u (List.mem_range.mpr (Nat.lt_trans lower low)) lower⟩
  | ok marks => exact fun ends v low => ends v (List.mem_range.mpr low)

theorem findCycle_outcome {count : Nat}
    (range : ∀ u w, parent u = some w → u < count → w < count) :
    Search (OnCycle parent) (∀ v < count, Ends parent v) (findCycle parent count) := by
  refine (findCycle_entersAt range).mono ?_ id
  rintro w ⟨v, _, enters, _⟩
  exact enters.onCycle

end HeapLens.Hierarchy
