import HeapLens.Proofs.Graph.Ranks
import Mathlib.Logic.Relation

set_option autoImplicit false

namespace HeapLens.Graph

variable {table : Candidates} {ranks : Ranks} {top : Nat}

def entry (table : Candidates) (v : Nat) : Option Nat := table[v]?.getD none

/-- Whether following candidates leads from one vertex to another. -/
def Ascends (table : Candidates) : Nat → Nat → Prop :=
  Relation.ReflTransGen fun v p => entry table v = some p

/-- Every candidate outranks its vertex and has a candidate itself; only the top is its own. -/
structure Rising (top : Nat) (ranks : Ranks) (table : Candidates) : Prop where
  own : entry table top = some top
  rises : ∀ v p, entry table v = some p → v ≠ top →
    rank ranks v < rank ranks p ∧ (entry table p).isSome

theorem lt_size_of_entry {v p : Nat} (h : entry table v = some p) : v < table.size := by
  by_contra out
  rw [entry, Array.getElem?_eq_none (Nat.le_of_not_lt out)] at h
  simp at h

theorem candidate_eq {v p : Nat} (h : entry table v = some p) : candidate table v = p := by
  change (entry table v).getD v = p
  rw [h, Option.getD_some]

theorem entry_setIfInBounds (table : Candidates) (c : Option Nat) {v : Nat}
    (bound : v < table.size) (w : Nat) :
    entry (table.setIfInBounds v c) w = if w = v then c else entry table w := by
  unfold entry
  rw [Array.getElem?_setIfInBounds]
  by_cases eq : v = w
  · subst eq
    simp [bound]
  · simp [eq, Ne.symm eq]

theorem eq_of_entry_eq {table' : Candidates} (sizes : table.size = table'.size)
    (same : ∀ v, entry table v = entry table' v) : table = table' := by
  apply Array.ext sizes
  intro i bound bound'
  simpa [entry, bound, bound'] using same i

namespace Ascends

theorem refl (table : Candidates) (v : Nat) : Ascends table v v := Relation.ReflTransGen.refl

theorem up {v p x : Nat} (h : entry table v = some p) (rest : Ascends table p x) :
    Ascends table v x := Relation.ReflTransGen.head h rest

theorem iff_of_entry {v p : Nat} (h : entry table v = some p) (x : Nat) :
    Ascends table v x ↔ x = v ∨ Ascends table p x := by
  constructor
  · intro path
    rcases path.cases_head with rfl | ⟨q, eq, rest⟩
    · exact .inl rfl
    · rw [h] at eq
      obtain rfl := Option.some.inj eq
      exact .inr rest
  · rintro (rfl | rest)
    · exact .refl table x
    · exact .up h rest

end Ascends

namespace Rising

theorem top_isSome (h : Rising top ranks table) : (entry table top).isSome := by
  rw [h.own]
  rfl

theorem eq_top (h : Rising top ranks table) {x : Nat} (path : Ascends table top x) : x = top := by
  induction path with
  | refl => rfl
  | tail _ edge ih =>
    rw [ih, h.own] at edge
    exact (Option.some.inj edge).symm

theorem eq_or_rank_lt (h : Rising top ranks table) {v x : Nat} (path : Ascends table v x) :
    x = v ∨ rank ranks v < rank ranks x := by
  induction path using Relation.ReflTransGen.head_induction_on with
  | refl => exact .inl rfl
  | @head v p edge rest ih =>
    by_cases atTop : v = top
    · subst atTop
      exact .inl (h.eq_top (.up edge rest))
    · have step := (h.rises v p edge atTop).1
      rcases ih with rfl | above
      · exact .inr step
      · exact .inr (step.trans above)

theorem rank_le (h : Rising top ranks table) {v x : Nat} (path : Ascends table v x) :
    rank ranks v ≤ rank ranks x := by
  rcases h.eq_or_rank_lt path with rfl | lt
  · exact Nat.le_refl _
  · exact lt.le

theorem antisymm (h : Rising top ranks table) {v x : Nat} (path : Ascends table v x)
    (back : Ascends table x v) : x = v := by
  rcases h.eq_or_rank_lt path with eq | lt
  · exact eq
  · exact absurd (h.rank_le back) (by omega)

end Rising

def height (ranks : Ranks) (table : Candidates) (v : Nat) : Nat :=
  ((Finset.range table.size).filter fun x => rank ranks v < rank ranks x).card

theorem height_lt {v p : Nat} (lt : rank ranks v < rank ranks p) (bound : p < table.size) :
    height ranks table p < height ranks table v := by
  apply Finset.card_lt_card
  rw [Finset.ssubset_iff_of_subset]
  · refine ⟨p, ?_, ?_⟩
    · simpa [bound] using lt
    · simp
  · intro x hx
    simp only [Finset.mem_filter] at hx ⊢
    exact ⟨hx.1, lt.trans hx.2⟩

theorem height_lt_size (table : Candidates) {v : Nat} (bound : v < ranks.size) :
    height ranks table v < ranks.size := by
  rw [← Finset.card_range ranks.size]
  apply Finset.card_lt_card
  rw [Finset.ssubset_iff_of_subset]
  · exact ⟨v, Finset.mem_range.mpr bound, by simp⟩
  · intro x hx
    have above := (Finset.mem_filter.mp hx).2
    rw [Finset.mem_range]
    by_contra out
    rw [rank, rank, Array.getElem?_eq_none (Nat.le_of_not_lt out)] at above
    exact Nat.not_lt_zero _ above

namespace Rising

theorem ascends_top (h : Rising top ranks table) {v : Nat} (some_v : (entry table v).isSome) :
    Ascends table v top := by
  induction eq : height ranks table v using Nat.strongRecOn generalizing v with
  | _ n ih =>
    subst eq
    by_cases atTop : v = top
    · subst atTop
      exact .refl table v
    · obtain ⟨p, edge⟩ := Option.isSome_iff_exists.mp some_v
      obtain ⟨lt, some_p⟩ := h.rises v p edge atTop
      obtain ⟨q, upper⟩ := Option.isSome_iff_exists.mp some_p
      exact .up edge (ih _ (height_lt lt (lt_size_of_entry upper)) some_p rfl)

theorem climb_step (h : Rising top ranks table) {a b : Nat} (some_a : (entry table a).isSome)
    (some_b : (entry table b).isSome) (le : rank ranks a ≤ rank ranks b) (ne : a ≠ b) :
    ∃ p, candidate table a = p ∧ (entry table p).isSome ∧
      height ranks table p < height ranks table a ∧
      ∀ x, Ascends table p x ∧ Ascends table b x ↔ Ascends table a x ∧ Ascends table b x := by
  obtain ⟨p, edge⟩ := Option.isSome_iff_exists.mp some_a
  have notTop : a ≠ top := by
    rintro rfl
    rcases h.eq_or_rank_lt (h.ascends_top some_b) with eq | lt
    · exact ne eq
    · omega
  obtain ⟨lt, some_p⟩ := h.rises a p edge notTop
  obtain ⟨q, upper⟩ := Option.isSome_iff_exists.mp some_p
  refine ⟨p, candidate_eq edge, some_p, height_lt lt (lt_size_of_entry upper), ?_⟩
  intro x
  rw [Ascends.iff_of_entry edge]
  constructor
  · rintro ⟨ha, hb⟩
    exact ⟨.inr ha, hb⟩
  · rintro ⟨rfl | ha, hb⟩
    · rcases h.eq_or_rank_lt hb with eq | lt
      · exact absurd eq ne
      · omega
    · exact ⟨ha, hb⟩

/-- The ancestors of the place where two climbs meet are the common ancestors. -/
theorem climb_ascends (h : Rising top ranks table) {steps a b : Nat}
    (some_a : (entry table a).isSome) (some_b : (entry table b).isSome)
    (enough : height ranks table a + height ranks table b < steps) :
    (entry table (climb table ranks steps a b)).isSome ∧
      ∀ x, Ascends table (climb table ranks steps a b) x ↔
        Ascends table a x ∧ Ascends table b x := by
  induction steps generalizing a b with
  | zero => omega
  | succ steps ih =>
    rw [climb]
    split
    · rename_i eq
      subst eq
      exact ⟨some_a, fun x => (and_self_iff).symm⟩
    · rename_i ne
      split
      · rename_i lt
        obtain ⟨p, eq, some_p, less, keeps⟩ := h.climb_step some_a some_b lt.le ne
        rw [eq]
        obtain ⟨some_m, common⟩ := ih some_p some_b (by omega)
        exact ⟨some_m, fun x => (common x).trans (keeps x)⟩
      · rename_i ge
        obtain ⟨p, eq, some_p, less, keeps⟩ :=
          h.climb_step some_b some_a (Nat.le_of_not_lt ge) (Ne.symm ne)
        rw [eq]
        obtain ⟨some_m, common⟩ := ih some_a some_p (by omega)
        exact ⟨some_m, fun x => (common x).trans (and_comm.trans ((keeps x).trans and_comm))⟩

theorem meet_ascends (h : Rising top ranks table) {a b : Nat} (bound_a : a < ranks.size)
    (bound_b : b < ranks.size) (some_a : (entry table a).isSome)
    (some_b : (entry table b).isSome) :
    (entry table (meet table ranks a b)).isSome ∧
      ∀ x, Ascends table (meet table ranks a b) x ↔ Ascends table a x ∧ Ascends table b x := by
  apply h.climb_ascends some_a some_b
  have below := height_lt_size table bound_a
  have below' := height_lt_size table bound_b
  omega

end Rising

def IsMeet (table : Candidates) (vs : List Nat) : Option Nat → Prop
  | none => ∀ v ∈ vs, entry table v = none
  | some m => (entry table m).isSome ∧ (∃ v ∈ vs, (entry table v).isSome) ∧
    ∀ x, Ascends table m x ↔ ∀ v ∈ vs, (entry table v).isSome → Ascends table v x

section MeetAll

variable {vs : List Nat} {v w : Nat}

theorem meetAll_concat_of_eq_none (at_v : entry table v = none) :
    meetAll table ranks (vs ++ [v]) = meetAll table ranks vs := by
  rw [entry] at at_v
  simp [meetAll, at_v]

theorem meetAll_concat_first {p : Nat} (at_v : entry table v = some p)
    (met : meetAll table ranks vs = none) : meetAll table ranks (vs ++ [v]) = some v := by
  rw [entry] at at_v
  rw [meetAll] at met
  simp [meetAll, at_v, met]

theorem meetAll_concat_next {p : Nat} (at_v : entry table v = some p)
    (met : meetAll table ranks vs = some w) :
    meetAll table ranks (vs ++ [v]) = some (meet table ranks v w) := by
  rw [entry] at at_v
  rw [meetAll] at met
  simp [meetAll, at_v, met]

end MeetAll

theorem Rising.isMeet_meetAll (h : Rising top ranks table) (sizes : table.size ≤ ranks.size)
    (vs : List Nat) : IsMeet table vs (meetAll table ranks vs) := by
  induction vs using List.reverseRecOn with
  | nil => simp [meetAll, IsMeet]
  | append_singleton vs v ih =>
    cases at_v : entry table v with
    | none =>
      rw [meetAll_concat_of_eq_none at_v]
      cases met : meetAll table ranks vs with
      | none =>
        rw [met] at ih
        simp only [IsMeet, List.forall_mem_append, List.forall_mem_singleton] at ih ⊢
        exact ⟨ih, at_v⟩
      | some w =>
        rw [met] at ih
        obtain ⟨some_w, ⟨u, mem, some_u⟩, common⟩ := ih
        refine ⟨some_w, ⟨u, List.mem_append_left _ mem, some_u⟩, fun x => ?_⟩
        rw [common x, List.forall_mem_append, List.forall_mem_singleton]
        simp [at_v]
    | some p =>
      have some_v : (entry table v).isSome := by rw [at_v]; rfl
      cases met : meetAll table ranks vs with
      | none =>
        rw [met] at ih
        rw [meetAll_concat_first at_v met]
        refine ⟨some_v, ⟨v, by simp, some_v⟩, fun x => ?_⟩
        constructor
        · intro path u mem some_u
          rcases List.mem_append.mp mem with old | new
          · simp [ih u old] at some_u
          · rw [List.mem_singleton.mp new]
            exact path
        · intro all
          exact all v (by simp) some_v
      | some w =>
        rw [met] at ih
        rw [meetAll_concat_next at_v met]
        obtain ⟨some_w, _, common⟩ := ih
        obtain ⟨q, at_w⟩ := Option.isSome_iff_exists.mp some_w
        obtain ⟨some_m, both⟩ := h.meet_ascends ((lt_size_of_entry at_v).trans_le sizes)
          ((lt_size_of_entry at_w).trans_le sizes) some_v some_w
        refine ⟨some_m, ⟨v, by simp, some_v⟩, fun x => ?_⟩
        rw [both x, common x, List.forall_mem_append, List.forall_mem_singleton]
        simp [some_v, and_comm]

end HeapLens.Graph
