import HeapLens.Proofs.Graph.Ancestors
import HeapLens.Proofs.Loop

set_option autoImplicit false

namespace HeapLens.Graph

variable {table : Candidates} {ranks : Ranks} {top a b m x : Nat}

/-- A turn of two climbs; vertices of one rank are stuck, and so are those without a candidate. -/
inductive Turn (table : Candidates) (ranks : Ranks) : Nat × Nat → Nat × Nat → Prop where
  | first {a b p : Nat} (lower : rank ranks a < rank ranks b) (edge : entry table a = some p) :
    Turn table ranks (a, b) (p, b)
  | second {a b p : Nat} (lower : rank ranks b < rank ranks a) (edge : entry table b = some p) :
    Turn table ranks (a, b) (a, p)

/-- Whether two climbs end, one vertex having been reached by both. -/
def MeetAt (table : Candidates) (ranks : Ranks) (a b m : Nat) : Prop :=
  Finishes (Turn table ranks) (a, b) (m, m)

/-- Whether the vertices with a candidate are ranked, no two of them alike. -/
structure Ranked (ranks : Ranks) (table : Candidates) : Prop where
  bound : ∀ v, (entry table v).isSome → v < ranks.size
  injective : ∀ v w, (entry table v).isSome → (entry table w).isSome →
    rank ranks v = rank ranks w → v = w

theorem Turn.of_first {t : Nat × Nat} {p : Nat} (turn : Turn table ranks (a, b) t)
    (lower : rank ranks a < rank ranks b) (edge : entry table a = some p) : t = (p, b) := by
  cases turn with
  | first _ edge' => rw [Option.some.inj (edge.symm.trans edge')]
  | second higher _ => omega

theorem Turn.of_second {t : Nat × Nat} {p : Nat} (turn : Turn table ranks (a, b) t)
    (lower : rank ranks b < rank ranks a) (edge : entry table b = some p) : t = (a, p) := by
  cases turn with
  | first higher _ => omega
  | second _ edge' => rw [Option.some.inj (edge.symm.trans edge')]

theorem meetAt_self (a : Nat) : MeetAt table ranks a a a := by
  refine .stop fun t turn => ?_
  cases turn with
  | first lower _ => exact Nat.lt_irrefl _ lower
  | second lower _ => exact Nat.lt_irrefl _ lower

namespace Rising

/-- The steps of `climb` are the turns of the two climbs. -/
theorem meetAt_climb (h : Rising top ranks table) (ranked : Ranked ranks table) {steps : Nat}
    (some_a : (entry table a).isSome) (some_b : (entry table b).isSome)
    (enough : height ranks table a + height ranks table b < steps) :
    MeetAt table ranks a b (climb table ranks steps a b) := by
  induction steps generalizing a b with
  | zero => omega
  | succ steps ih =>
    obtain ⟨p, edge⟩ := Option.isSome_iff_exists.mp some_a
    obtain ⟨q, edge'⟩ := Option.isSome_iff_exists.mp some_b
    rw [climb]
    split
    · rename_i eq
      subst eq
      exact meetAt_self a
    · rename_i ne
      split
      · rename_i lower
        obtain ⟨p', eq, some_p, less, _⟩ := h.climb_step some_a some_b lower.le ne
        obtain rfl := (candidate_eq edge).symm.trans eq
        rw [eq]
        exact .turn (.first lower edge) (fun t turn => turn.of_first lower edge)
          (ih some_p some_b (by omega))
      · rename_i ge
        have lower : rank ranks b < rank ranks a := by
          have apart := mt (ranked.injective a b some_a some_b) ne
          omega
        obtain ⟨q', eq, some_q, less, _⟩ := h.climb_step some_b some_a lower.le (Ne.symm ne)
        obtain rfl := (candidate_eq edge').symm.trans eq
        rw [eq]
        exact .turn (.second lower edge') (fun t turn => turn.of_second lower edge')
          (ih some_a some_q (by omega))

theorem meetAt_meet (h : Rising top ranks table) (ranked : Ranked ranks table)
    (some_a : (entry table a).isSome) (some_b : (entry table b).isSome) :
    MeetAt table ranks a b (meet table ranks a b) := by
  apply h.meetAt_climb ranked some_a some_b
  have below := height_lt_size table (ranked.bound a some_a)
  have below' := height_lt_size table (ranked.bound b some_b)
  omega

theorem ascends_meet_iff (h : Rising top ranks table) (ranked : Ranked ranks table)
    (some_a : (entry table a).isSome) (some_b : (entry table b).isSome) :
    Ascends table (meet table ranks a b) x ↔ Ascends table a x ∧ Ascends table b x :=
  (h.meet_ascends (ranked.bound a some_a) (ranked.bound b some_b) some_a some_b).2 x

theorem meet_comm (h : Rising top ranks table) (ranked : Ranked ranks table)
    (some_a : (entry table a).isSome) (some_b : (entry table b).isSome) :
    meet table ranks b a = meet table ranks a b := by
  have same (y : Nat) : Ascends table (meet table ranks a b) y ↔
      Ascends table (meet table ranks b a) y := by
    rw [h.ascends_meet_iff ranked some_a some_b, h.ascends_meet_iff ranked some_b some_a, and_comm]
  exact h.antisymm ((same _).mpr (.refl table _)) ((same _).mp (.refl table _))

end Rising

/--
The climbs from any two vertices of a ranked tree end at their nearest common ancestor: it lies on
both ways to the top, and every other vertex that does so lies above it. Which of the two vertices
comes first makes no difference.
-/
theorem climbs_meet_at_nearest (rising : Rising top ranks table) (ranked : Ranked ranks table)
    (some_a : (entry table a).isSome) (some_b : (entry table b).isSome) :
    ∃ m, meet table ranks a b = m ∧ meet table ranks b a = m ∧
      MeetAt table ranks a b m ∧ MeetAt table ranks b a m ∧
      Ascends table a m ∧ Ascends table b m ∧ Ascends table m top ∧
      ∀ x, Ascends table a x → Ascends table b x → x ≠ m →
        Ascends table m x ∧ rank ranks m < rank ranks x := by
  have swapped := rising.meet_comm ranked some_a some_b
  have common (x : Nat) := rising.ascends_meet_iff (x := x) ranked some_a some_b
  obtain ⟨up_a, up_b⟩ := (common _).mp (.refl table _)
  refine ⟨meet table ranks a b, rfl, swapped, rising.meetAt_meet ranked some_a some_b, ?_,
    up_a, up_b, ?_, ?_⟩
  · have back := rising.meetAt_meet ranked some_b some_a
    rwa [swapped] at back
  · exact (common top).mpr ⟨rising.ascends_top some_a, rising.ascends_top some_b⟩
  · intro x path path' ne
    have above := (common x).mpr ⟨path, path'⟩
    exact ⟨above, (rising.eq_or_rank_lt above).resolve_left ne⟩

def forkTable : Candidates :=
  #[some 2, some 3, some 4, some 5, some 5, some 6, some 6, none]

def forkRanks : Ranks := #[0, 2, 1, 4, 3, 5, 9, 2]

theorem rising_fork : Rising 6 forkRanks forkTable where
  own := rfl
  rises v p edge notTop := by
    have all : ∀ v < 8, ∀ p ∈ entry forkTable v, v ≠ 6 →
        rank forkRanks v < rank forkRanks p ∧ (entry forkTable p).isSome := by decide
    exact all v (lt_size_of_entry edge) p edge notTop

theorem ranked_fork : Ranked forkRanks forkTable where
  bound v some_v := by
    obtain ⟨p, edge⟩ := Option.isSome_iff_exists.mp some_v
    exact lt_size_of_entry edge
  injective v w some_v some_w same := by
    have all : ∀ v < 8, ∀ w < 8, (entry forkTable v).isSome → (entry forkTable w).isSome →
        rank forkRanks v = rank forkRanks w → v = w := by decide
    obtain ⟨p, edge⟩ := Option.isSome_iff_exists.mp some_v
    obtain ⟨q, edge'⟩ := Option.isSome_iff_exists.mp some_w
    exact all v (lt_size_of_entry edge) w (lt_size_of_entry edge') some_v some_w same

theorem climbs_meet_fork :
    MeetAt forkTable forkRanks 0 1 5 ∧ meet forkTable forkRanks 1 0 = 5 ∧
      ∀ x, Ascends forkTable 0 x → Ascends forkTable 1 x → x ≠ 5 → Ascends forkTable 5 x := by
  obtain ⟨m, met, swapped, there, _, _, _, _, nearest⟩ :=
    climbs_meet_at_nearest rising_fork ranked_fork (a := 0) (b := 1) (by decide) (by decide)
  have at_five : meet forkTable forkRanks 0 1 = 5 := by decide
  obtain rfl : m = 5 := met.symm.trans at_five
  exact ⟨there, swapped, fun x path path' ne => (nearest x path path' ne).1⟩

end HeapLens.Graph
