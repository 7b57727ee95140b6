import HeapLens.Graph.Retained
import HeapLens.Proofs.Graph.Settling
import Mathlib.Algebra.BigOperators.Group.Finset.Basic

set_option autoImplicit false

namespace HeapLens

def sizeLimit : Nat := 18446744073709551615

theorem cappedAdd_toNat (a b : UInt64) :
    (cappedAdd a b).toNat = min sizeLimit (a.toNat + b.toNat) := by
  have bound_a := a.toNat_lt
  have bound_b := b.toNat_lt
  unfold cappedAdd sizeLimit
  split
  · rename_i fits
    simp only [UInt64.size] at fits
    rw [UInt64.toNat_add, Nat.mod_eq_of_lt fits]
    omega
  · rename_i beyond
    simp only [UInt64.size] at beyond
    rw [Nat.min_eq_left (by omega)]
    rfl

theorem min_add_min (limit m n : Nat) :
    min limit (min limit m + min limit n) = min limit (m + n) := by
  omega

namespace Graph

variable {dominators : Array (Option Nat)} {passed : List Nat} {u v w d : Nat}

def dominatorOf (dominators : Array (Option Nat)) (v : Nat) : Option Nat :=
  dominators[v]?.getD none

def Carries (dominators : Array (Option Nat)) (passed : List Nat) : Nat → Nat → Prop :=
  Relation.ReflTransGen fun v d => v ∈ passed ∧ dominatorOf dominators v = some d

theorem Carries.eq_of_notMem (path : Carries dominators passed v w) (out : v ∉ passed) :
    w = v := by
  rcases path.cases_head with rfl | ⟨d, ⟨mem, _⟩, _⟩
  · rfl
  · exact absurd mem out

theorem Carries.unique (path : Carries dominators passed u v) (path' : Carries dominators passed u w)
    (out : v ∉ passed) (out' : w ∉ passed) : v = w := by
  have functional : Relator.RightUnique
      fun v d => v ∈ passed ∧ dominatorOf dominators v = some d := by
    rintro x y z ⟨_, eq⟩ ⟨_, eq'⟩
    exact Option.some.inj (eq.symm.trans eq')
  rcases Relation.ReflTransGen.total_of_right_unique functional path path' with up | down
  · exact (Carries.eq_of_notMem up out).symm
  · exact Carries.eq_of_notMem down out'

theorem Carries.extend (path : Carries dominators passed u w) (v : Nat) :
    Carries dominators (passed ++ [v]) u w := by
  induction path with
  | refl => exact .refl
  | tail _ step ih => exact ih.tail ⟨List.mem_append_left _ step.1, step.2⟩

theorem carries_concat_none (none_v : dominatorOf dominators v = none) :
    Carries dominators (passed ++ [v]) u w ↔ Carries dominators passed u w := by
  constructor
  · intro path
    induction path with
    | refl => exact .refl
    | @tail x y _ step ih =>
      obtain ⟨mem, eq⟩ := step
      rcases List.mem_append.mp mem with old | new
      · exact ih.tail ⟨old, eq⟩
      · rw [List.mem_singleton.mp new, none_v] at eq
        cases eq
  · exact fun path => path.extend v

theorem carries_concat_some (some_v : dominatorOf dominators v = some d)
    (out : d ∉ passed ++ [v]) :
    Carries dominators (passed ++ [v]) u w ↔
      Carries dominators passed u w ∨ (w = d ∧ Carries dominators passed u v) := by
  constructor
  · intro path
    induction path with
    | refl => exact .inl .refl
    | @tail x y _ step ih =>
      obtain ⟨mem, eq⟩ := step
      rcases ih with old | ⟨rfl, _⟩
      · rcases List.mem_append.mp mem with before | last
        · exact .inl (old.tail ⟨before, eq⟩)
        · obtain rfl := List.mem_singleton.mp last
          exact .inr ⟨Option.some.inj (eq.symm.trans some_v), old⟩
      · exact absurd mem out
  · rintro (old | ⟨rfl, path⟩)
    · exact old.extend v
    · exact (path.extend v).tail ⟨by simp, some_v⟩

open Classical in
noncomputable def arrived (dominators : Array (Option Nat)) (sizes : Array UInt64)
    (passed : List Nat) (w : Nat) : Nat :=
  ∑ u ∈ (Finset.range sizes.size).filter (fun u => Carries dominators passed u w),
    (sizes[u]?.getD 0).toNat

theorem arrived_congr {sizes : Array UInt64} {passed' : List Nat}
    (h : ∀ u, Carries dominators passed u w ↔ Carries dominators passed' u w) :
    arrived dominators sizes passed w = arrived dominators sizes passed' w := by
  classical
  exact Finset.sum_congr (Finset.filter_congr fun u _ => h u) fun _ _ => rfl

theorem arrived_concat_self {sizes : Array UInt64} (some_v : dominatorOf dominators v = some d)
    (out : d ∉ passed ++ [v]) (fresh : v ∉ passed) :
    arrived dominators sizes (passed ++ [v]) d =
      arrived dominators sizes passed d + arrived dominators sizes passed v := by
  classical
  have out_d : d ∉ passed := fun mem => out (List.mem_append_left _ mem)
  have ne : d ≠ v := by
    rintro rfl
    exact out (by simp)
  simp only [arrived, carries_concat_some some_v out, true_and]
  rw [Finset.filter_or, Finset.sum_union]
  rw [Finset.disjoint_filter]
  intro u _ path path'
  exact ne (path.unique path' out_d fresh)

/-- What holds of the sums when `passed` has been gone through. -/
structure Accumulating (dominators : Array (Option Nat)) (sizes : Array UInt64)
    (passed : List Nat) (sums : Array UInt64) : Prop where
  size_eq : sums.size = sizes.size
  sum_eq : ∀ w < sizes.size,
    (sums[w]?.getD 0).toNat = min sizeLimit (arrived dominators sizes passed w)

theorem accumulating_start (dominators : Array (Option Nat)) (sizes : Array UInt64) :
    Accumulating dominators sizes [] sizes where
  size_eq := rfl
  sum_eq w bound := by
    classical
    have only (u : Nat) : Carries dominators [] u w ↔ u = w := by
      constructor
      · exact fun path => (path.eq_of_notMem List.not_mem_nil).symm
      · rintro rfl
        exact .refl
    have limit := (sizes[w]?.getD 0).toNat_lt
    simp only [arrived, only]
    rw [Finset.filter_eq', if_pos (Finset.mem_range.mpr bound), Finset.sum_singleton]
    unfold sizeLimit
    omega

theorem passOn_of_eq_none {sums : Array UInt64} (at_v : dominatorOf dominators v = none) :
    passOn dominators sums v = sums := by
  rw [dominatorOf] at at_v
  rw [passOn, at_v]

theorem passOn_of_eq_some {sums : Array UInt64} {d : Nat}
    (at_v : dominatorOf dominators v = some d) :
    passOn dominators sums v =
      sums.modify d fun sum => cappedAdd sum (sums[v]?.getD 0) := by
  rw [dominatorOf] at at_v
  rw [passOn, at_v]

theorem Accumulating.step {sizes sums : Array UInt64}
    (inv : Accumulating dominators sizes passed sums) (fresh : v ∉ passed)
    (later : ∀ d, dominatorOf dominators v = some d →
      d ∉ passed ++ [v] ∧ v < sizes.size) :
    Accumulating dominators sizes (passed ++ [v]) (passOn dominators sums v) := by
  cases at_v : dominatorOf dominators v with
  | none =>
    rw [passOn_of_eq_none at_v]
    refine ⟨inv.size_eq, fun w bound => ?_⟩
    rw [arrived_congr fun u => carries_concat_none at_v]
    exact inv.sum_eq w bound
  | some d =>
    obtain ⟨out, bound_v⟩ := later d at_v
    rw [passOn_of_eq_some at_v]
    refine ⟨by simpa using inv.size_eq, fun w bound => ?_⟩
    rw [Array.getElem?_modify]
    by_cases eq : d = w
    · subst eq
      have lt : d < sums.size := inv.size_eq ▸ bound
      have here := inv.sum_eq d bound
      have there := inv.sum_eq v bound_v
      rw [Array.getElem?_eq_getElem lt, Option.getD_some] at here
      rw [if_pos rfl, Array.getElem?_eq_getElem lt, Option.map_some, Option.getD_some,
        cappedAdd_toNat, here, there, min_add_min, arrived_concat_self at_v out fresh]
    · have same (u : Nat) : Carries dominators (passed ++ [v]) u w ↔
          Carries dominators passed u w := by
        rw [carries_concat_some at_v out]
        simp [Ne.symm eq]
      rw [if_neg eq, arrived_congr same]
      exact inv.sum_eq w bound

theorem accumulating_accumulate (dominators : Array (Option Nat)) (sizes : Array UInt64)
    {order : List Nat} (nodup : order.Nodup)
    (ordered : ∀ before v after d, order = before ++ v :: after →
      dominatorOf dominators v = some d → d ∈ after ∧ v < sizes.size) :
    Accumulating dominators sizes order (accumulate order dominators sizes) := by
  have general (passed rest : List Nat) (sums : Array UInt64) (eq : order = passed ++ rest)
      (inv : Accumulating dominators sizes passed sums) :
      Accumulating dominators sizes order (accumulate rest dominators sums) := by
    induction rest generalizing passed sums with
    | nil =>
      rw [eq, List.append_nil]
      exact inv
    | cons v rest ih =>
      rw [eq] at nodup
      obtain ⟨_, inner, apart⟩ := List.nodup_append.mp nodup
      have fresh : v ∉ passed := fun mem => apart v mem v List.mem_cons_self rfl
      refine ih (passed ++ [v]) _ (by simp [eq]) (inv.step fresh fun d at_v => ?_)
      obtain ⟨mem, bound⟩ := ordered passed v rest d eq at_v
      refine ⟨fun here => ?_, bound⟩
      rcases List.mem_append.mp here with before | last
      · exact apart d before d (List.mem_cons_of_mem v mem) rfl
      · rw [List.mem_singleton.mp last] at mem
        exact (List.nodup_cons.mp inner).1 mem
  exact general [] order sizes rfl (accumulating_start dominators sizes)

variable {g : Graph}

theorem dominatorOf_immediateDominators (range : g.InRange) (bound : v < g.size) :
    dominatorOf g.immediateDominators v = (entry g.dominatorTable v).filter (· ≠ g.top) := by
  rw [dominatorOf, immediateDominators_getElem? range bound, Option.getD_some]

theorem dominatorOf_eq_some_iff (range : g.InRange) :
    dominatorOf g.immediateDominators v = some d ↔
      entry g.dominatorTable v = some d ∧ d ≠ g.top := by
  have settled := passing_dominatorTable range
  by_cases bound : v < g.size
  · rw [dominatorOf_immediateDominators range bound, Option.filter_eq_some_iff]
    simp
  · have size_eq := settled.size_eq
    have beyond : g.immediateDominators.size ≤ v := by
      simp only [immediateDominators, Array.size_map, Array.take_eq_extract, Array.size_extract]
      omega
    rw [dominatorOf, Array.getElem?_eq_none beyond]
    simp only [Option.getD_none, reduceCtorEq, false_iff, not_and, not_not]
    intro eq
    have le := (settled.reachable v d eq).le_size range
    have atTop : v = g.top := Nat.le_antisymm le (Nat.le_of_not_lt bound)
    rw [atTop, settled.own] at eq
    exact (Option.some.inj eq).symm

theorem ne_top_of_dominatorOf (range : g.InRange)
    (eq : dominatorOf g.immediateDominators v = some d) : v ≠ g.top := by
  rintro rfl
  obtain ⟨at_top, ne⟩ := (dominatorOf_eq_some_iff range).mp eq
  rw [(passing_dominatorTable range).own] at at_top
  exact ne (Option.some.inj at_top).symm

theorem mem_after_of_dominatorOf (range : g.InRange) {before after : List Nat}
    (order : g.postorder = before ++ v :: after)
    (eq : dominatorOf g.immediateDominators v = some d) : d ∈ after := by
  have settled := passing_dominatorTable range
  have notTop := ne_top_of_dominatorOf range eq
  obtain ⟨edge, _⟩ := (dominatorOf_eq_some_iff range).mp eq
  obtain ⟨ne, dom, _⟩ := settled.candidate_dominates range g.size_lt_enoughPasses edge notTop
  have before_v := mem_before_of_dominates range (reversePostorder_eq order) dom ne
  exact List.mem_reverse.mp before_v

/-- In the end the size of a vertex has arrived at itself and at all its dominators. -/
theorem carries_postorder_iff (range : g.InRange) (bound : w < g.size) :
    Carries g.immediateDominators g.postorder u w ↔
      u = w ∨ (g.Reachable u ∧ g.Dominates w u) := by
  have settled := passing_dominatorTable range
  have enough := g.size_lt_enoughPasses
  constructor
  · intro path
    induction path using Relation.ReflTransGen.head_induction_on with
    | refl => exact .inl rfl
    | @head v d step _ ih =>
      obtain ⟨eq, _⟩ := (dominatorOf_eq_some_iff range).mp step.2
      have reach := settled.reachable v d eq
      have dom := (settled.candidate_dominates range enough eq
        (ne_top_of_dominatorOf range step.2)).2.1
      rcases ih with rfl | ⟨_, above⟩
      · exact .inr ⟨reach, dom⟩
      · exact .inr ⟨reach, above.trans dom⟩
  · rintro (rfl | ⟨reach, dom⟩)
    · exact .refl
    · have path := (settled.ascends_iff range enough reach).mpr dom
      induction path using Relation.ReflTransGen.head_induction_on with
      | refl => exact .refl
      | @head v p edge rest ih =>
        have ne : p ≠ g.top := by
          rintro rfl
          exact Nat.ne_of_lt bound (settled.eq_top rest)
        have mem : v ∈ g.postorder := (g.mem_postorder range).mpr reach
        have notTop := ne_top_of_dominatorOf range ((dominatorOf_eq_some_iff range).mpr ⟨edge, ne⟩)
        have above := (settled.candidate_dominates range enough edge notTop).2.1
        have reach_p := above.reachable reach
        exact .head ⟨mem, (dominatorOf_eq_some_iff range).mpr ⟨edge, ne⟩⟩
          (ih reach_p ((settled.ascends_iff range enough reach_p).mp rest))

theorem accumulating_retainedSizes (range : g.InRange) {sizes : Array UInt64}
    (size_eq : sizes.size = g.size) :
    Accumulating g.immediateDominators sizes g.postorder
      (g.retainedSizes g.immediateDominators sizes) := by
  apply accumulating_accumulate _ _ (g.postorder_nodup range)
  intro before v after d order eq
  have mem : v ∈ g.postorder := by simp [order]
  have reach := (g.mem_postorder range).mp mem
  exact ⟨mem_after_of_dominatorOf range order eq,
    size_eq ▸ reach.lt_size range (ne_top_of_dominatorOf range eq)⟩

open Classical in
theorem retainedSizes_toNat (range : g.InRange) {sizes : Array UInt64}
    (size_eq : sizes.size = g.size) (bound : w < g.size) :
    ((g.retainedSizes g.immediateDominators sizes)[w]?.getD 0).toNat =
      min sizeLimit (∑ u ∈ (Finset.range g.size).filter
        (fun u => u = w ∨ (g.Reachable u ∧ g.Dominates w u)), (sizes[u]?.getD 0).toNat) := by
  rw [(accumulating_retainedSizes range size_eq).sum_eq w (size_eq ▸ bound), arrived, size_eq,
    Finset.filter_congr fun u _ => carries_postorder_iff range bound]

end Graph

end HeapLens
