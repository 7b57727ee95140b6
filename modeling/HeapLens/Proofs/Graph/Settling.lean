import HeapLens.Proofs.Graph.Ancestors
import Mathlib.Logic.Function.Iterate

/-!
# The settled table

Two facts hold in between any two updates of a table. No dominator is ever lost: what dominates a
vertex, itself apart, dominates its candidate. And after `k` passes nothing is kept without need:
every ancestor of a vertex lies on every walk to it that has at most `k` steps. As there are no
more steps than vertices on a walk without detours, the ancestors in the settled table are exactly
the dominators.
-/

set_option autoImplicit false

namespace HeapLens.Graph

variable {g : Graph} {table : Candidates} {v w x : Nat} {c : Option Nat}

structure Candidacy (g : Graph) (table : Candidates) : Prop
    extends Rising g.top g.postorderRanks table where
  size_eq : table.size = g.size + 1
  reachable : ∀ v p, entry table v = some p → g.Reachable v
  keeps : ∀ v p, entry table v = some p → v ≠ g.top →
    ∀ d, g.Dominates d v → d ≠ v → g.Dominates d p

namespace Candidacy

theorem size_le (h : g.Candidacy table) : table.size ≤ g.postorderRanks.size := by
  rw [h.size_eq, size_postorderRanks]

theorem ascends_of_dominates (h : g.Candidacy table) {d : Nat} (some_v : (entry table v).isSome)
    (dom : g.Dominates d v) : Ascends table v d := by
  have path := h.ascends_top some_v
  induction path using Relation.ReflTransGen.head_induction_on with
  | refl =>
    rw [eq_top_of_dominates_top dom]
    exact .refl table g.top
  | @head v p edge _ ih =>
    by_cases eq : d = v
    · subst eq
      exact .refl table d
    · by_cases atTop : v = g.top
      · subst atTop
        exact absurd (eq_top_of_dominates_top dom) eq
      · exact .up edge (ih (h.rises v p edge atTop).2 (h.keeps v p edge atTop d dom eq))

theorem dominates_between (h : g.Candidacy table) {d m : Nat} (path : Ascends table v m)
    (dom : g.Dominates d v) (above : Ascends table m d) : g.Dominates d m := by
  induction path with
  | refl => exact dom
  | @tail y z _ edge ih =>
    by_cases atTop : y = g.top
    · subst atTop
      rw [h.own] at edge
      obtain rfl := Option.some.inj edge
      exact ih above
    · have lt := (h.rises y z edge atTop).1
      have le := h.rank_le above
      have ne : d ≠ y := by
        rintro rfl
        omega
      exact h.keeps y z edge atTop d (ih (.up edge above)) ne

end Candidacy

structure Update (g : Graph) (table : Candidates) (v : Nat) : Prop where
  reachable : g.Reachable v
  not_top : v ≠ g.top
  source : ∃ u, g.Reachable u ∧ v ∈ g.targets u ∧ (entry table u).isSome ∧
    rank g.postorderRanks v < rank g.postorderRanks u

def updated (g : Graph) (table : Candidates) (v : Nat) : Candidates :=
  table.setIfInBounds v (meetAll table g.postorderRanks (g.sources[v]?.getD []))

namespace Update

theorem entry_updated (range : g.InRange) (h : g.Candidacy table) (u : g.Update table v)
    (w : Nat) :
    entry (g.updated table v) w =
      if w = v then meetAll table g.postorderRanks (g.sources[v]?.getD []) else entry table w := by
  have bound : v < table.size := by
    have := u.reachable.le_size range
    rw [h.size_eq]
    omega
  exact entry_setIfInBounds table _ bound w

/-- The new candidate: its ancestors are those that all sources with a candidate share. -/
theorem exists_candidate (range : g.InRange) (h : g.Candidacy table) (u : g.Update table v) :
    ∃ m, entry (g.updated table v) v = some m ∧ (entry table m).isSome ∧
      rank g.postorderRanks v < rank g.postorderRanks m ∧
      (∃ s, g.Reachable s ∧ v ∈ g.targets s ∧ (entry table s).isSome ∧ Ascends table s m) ∧
      ∀ x, Ascends table m x ↔ ∀ s, g.Reachable s → v ∈ g.targets s → (entry table s).isSome →
        Ascends table s x := by
  have met := h.isMeet_meetAll h.size_le (g.sources[v]?.getD [])
  obtain ⟨s, reach_s, edge, some_s, outranks⟩ := u.source
  have mem_s : s ∈ g.sources[v]?.getD [] := (mem_sources range).mpr ⟨reach_s, edge⟩
  cases eq : meetAll table g.postorderRanks (g.sources[v]?.getD []) with
  | none =>
    rw [eq] at met
    simp [met s mem_s] at some_s
  | some m =>
    rw [eq] at met
    obtain ⟨some_m, _, common⟩ := met
    have path := (common m).mp (.refl table m) s mem_s some_s
    refine ⟨m, ?_, some_m, outranks.trans_le (h.rank_le path), ⟨s, reach_s, edge, some_s, path⟩,
      fun x => (common x).trans ⟨?_, ?_⟩⟩
    · rw [entry_updated range h u, if_pos rfl, eq]
    · intro all t reach_t edge_t
      exact all t ((mem_sources range).mpr ⟨reach_t, edge_t⟩)
    · intro all t mem_t
      obtain ⟨reach_t, edge_t⟩ := (mem_sources range).mp mem_t
      exact all t reach_t edge_t

theorem entry_of_ne (range : g.InRange) (h : g.Candidacy table) (u : g.Update table v)
    (ne : w ≠ v) : entry (g.updated table v) w = entry table w := by
  rw [entry_updated range h u, if_neg ne]

theorem isSome_updated (range : g.InRange) (h : g.Candidacy table) (u : g.Update table v)
    (some_w : (entry table w).isSome) : (entry (g.updated table v) w).isSome := by
  by_cases eq : w = v
  · subst eq
    obtain ⟨m, new, _⟩ := u.exists_candidate range h
    rw [new]
    rfl
  · rw [u.entry_of_ne range h eq]
    exact some_w

theorem candidacy (range : g.InRange) (h : g.Candidacy table) (u : g.Update table v) :
    g.Candidacy (g.updated table v) := by
  obtain ⟨m, new, some_m, outranks, ⟨s, reach_s, edge, some_s, path⟩, common⟩ :=
    u.exists_candidate range h
  refine
    { own := by rw [u.entry_of_ne range h (Ne.symm u.not_top), h.own]
      rises := ?_
      size_eq := by rw [updated, Array.size_setIfInBounds, h.size_eq]
      reachable := ?_
      keeps := ?_ }
  · intro w p eq notTop
    by_cases at_v : w = v
    · subst at_v
      obtain rfl := Option.some.inj (new.symm.trans eq)
      exact ⟨outranks, u.isSome_updated range h some_m⟩
    · rw [u.entry_of_ne range h at_v] at eq
      exact (h.rises w p eq notTop).imp id (u.isSome_updated range h)
  · intro w p eq
    by_cases at_v : w = v
    · exact at_v ▸ u.reachable
    · rw [u.entry_of_ne range h at_v] at eq
      exact h.reachable w p eq
  · intro w p eq notTop d dom ne
    by_cases at_v : w = v
    · subst at_v
      obtain rfl := Option.some.inj (new.symm.trans eq)
      have above : Ascends table m d := (common d).mpr fun t _ edge_t some_t =>
        h.ascends_of_dominates some_t (dom.source edge_t ne)
      exact h.dominates_between path (dom.source edge ne) above
    · rw [u.entry_of_ne range h at_v] at eq
      exact h.keeps w p eq notTop d dom ne

theorem ascends_updated (range : g.InRange) (h : g.Candidacy table) (u : g.Update table v)
    (path : Ascends (g.updated table v) w x) :
    Ascends table w x ∨ (Ascends table w v ∧ Ascends (g.updated table v) v x) := by
  induction path using Relation.ReflTransGen.head_induction_on with
  | refl => exact .inl (.refl table x)
  | @head w p edge rest ih =>
    by_cases at_v : w = v
    · subst at_v
      exact .inr ⟨.refl table w, .up edge rest⟩
    · rw [u.entry_of_ne range h at_v] at edge
      rcases ih with old | ⟨down, up⟩
      · exact .inl (.up edge old)
      · exact .inr ⟨.up edge down, up⟩

theorem ascends_of_rank_lt (range : g.InRange) (h : g.Candidacy table) (u : g.Update table v)
    (lt : rank g.postorderRanks v < rank g.postorderRanks w)
    (path : Ascends (g.updated table v) w x) : Ascends table w x := by
  rcases u.ascends_updated range h path with old | ⟨down, _⟩
  · exact old
  · exact absurd (h.rank_le down) (by omega)

theorem ascends_source (range : g.InRange) (h : g.Candidacy table) (u : g.Update table v)
    (path : Ascends (g.updated table v) v x) (ne : x ≠ v) {s : Nat} (reach_s : g.Reachable s)
    (edge : v ∈ g.targets s) (some_s : (entry table s).isSome) : Ascends table s x := by
  obtain ⟨m, new, _, outranks, _, common⟩ := u.exists_candidate range h
  have beyond := ((Ascends.iff_of_entry new x).mp path).resolve_left ne
  exact (common x).mp (u.ascends_of_rank_lt range h outranks beyond) s reach_s edge some_s

theorem of_passed (range : g.InRange) {passed rest : List Nat}
    (order : g.reversePostorder = passed ++ v :: rest) (notTop : v ≠ g.top)
    (isSome : ∀ u ∈ passed, (entry table u).isSome) : g.Update table v where
  reachable := (g.mem_reversePostorder range).mp (by simp [order])
  not_top := notTop
  source := by
    obtain ⟨u, mem, edge⟩ := exists_source_before range order notTop
    exact ⟨u, (g.mem_reversePostorder range).mp (by simp [order, mem]), edge, isSome u mem,
      rank_lt_of_before range order mem⟩

end Update

theorem ne_top_of_passed (range : g.InRange) {passed rest : List Nat}
    (order : g.reversePostorder = passed ++ v :: rest) (top : g.top ∈ passed) : v ≠ g.top := by
  rintro rfl
  have nodup := g.reversePostorder_nodup range
  rw [order] at nodup
  exact (List.nodup_append.mp nodup).2.2 g.top top g.top List.mem_cons_self rfl

/-- Whether the ancestors of a vertex lie on every walk to it that has at most `k` steps. -/
def Covered (g : Graph) (k : Nat) (table : Candidates) (v : Nat) : Prop :=
  ∀ vs, g.Path g.top vs v → vs.length ≤ k → ∀ x, Ascends table v x → x ∈ vs ∨ x = v

/-- What holds within a pass: before it `k` passes were made, `passed` has been gone through. -/
structure Passing (g : Graph) (k : Nat) (passed : List Nat) (table : Candidates) : Prop
    extends Candidacy g table where
  ready : ∀ v vs, g.Path g.top vs v → vs.length ≤ k → (entry table v).isSome
  covered : ∀ v, g.Covered k table v
  passed_isSome : ∀ v ∈ passed, (entry table v).isSome
  ahead : ∀ v ∈ passed, g.Covered (k + 1) table v

theorem covered_top (h : g.Candidacy table) (k : Nat) : g.Covered k table g.top :=
  fun _ _ _ _ path => .inr (h.eq_top path)

namespace Passing

variable {k : Nat} {passed rest : List Nat}

theorem update (range : g.InRange) (inv : g.Passing k passed table)
    (order : g.reversePostorder = passed ++ v :: rest) (notTop : v ≠ g.top) :
    g.Update table v := .of_passed range order notTop inv.passed_isSome

theorem covered_updated (range : g.InRange) (inv : g.Passing k passed table)
    (u : g.Update table v) : g.Covered (k + 1) (g.updated table v) v := by
  intro vs p short x path
  by_cases eq : x = v
  · exact .inr eq
  · rcases p.last_step with ⟨_, top⟩ | ⟨us, s, rfl, before, edge⟩
    · exact absurd top.symm u.not_top
    · have bound : us.length ≤ k := by simpa using short
      have up := u.ascends_source range inv.toCandidacy path eq ⟨us, before⟩ edge
        (inv.ready s us before bound)
      rcases inv.covered s us before bound x up with mem | rfl
      · exact .inl (by simp [mem])
      · exact .inl (by simp)

theorem step (range : g.InRange) (inv : g.Passing k passed table)
    (order : g.reversePostorder = passed ++ v :: rest) (notTop : v ≠ g.top) :
    g.Passing k (passed ++ [v]) (g.updated table v) := by
  have u := inv.update range order notTop
  have h := inv.toCandidacy
  have new := inv.covered_updated range u
  refine
    { toCandidacy := u.candidacy range h
      ready := fun w vs p short => u.isSome_updated range h (inv.ready w vs p short)
      covered := ?_
      passed_isSome := ?_
      ahead := ?_ }
  · intro w vs p short x path
    rcases u.ascends_updated range h path with old | ⟨down, up⟩
    · exact inv.covered w vs p short x old
    -- The ancestor is reached through `v`, which lies on the walk: its part up to `v` is a walk
    -- to the vertex that has just been updated.
    · rcases inv.covered w vs p short v down with mem | rfl
      · obtain ⟨us, ws, rfl, before, _⟩ := p.split mem
        have bound : us.length ≤ k + 1 := by
          simp only [List.length_append] at short
          omega
        rcases new us before bound x up with mem | rfl
        · exact .inl (by simp [mem])
        · exact .inl (by simp)
      · exact new vs p (by omega) x up
  · intro w mem
    rcases List.mem_append.mp mem with old | at_v
    · exact u.isSome_updated range h (inv.passed_isSome w old)
    · rw [List.mem_singleton.mp at_v]
      obtain ⟨m, eq, _⟩ := u.exists_candidate range h
      rw [eq]
      rfl
  · intro w mem
    rcases List.mem_append.mp mem with old | at_v
    · intro vs p short x path
      exact inv.ahead w old vs p short x
        (u.ascends_of_rank_lt range h (rank_lt_of_before range order old) path)
    · rw [List.mem_singleton.mp at_v]
      exact new

theorem pass_rest (range : g.InRange) (inv : g.Passing k passed table)
    (order : g.reversePostorder = passed ++ rest) (top : g.top ∈ passed) :
    g.Passing k g.reversePostorder (pass g.postorderRanks g.sources rest table) := by
  induction rest generalizing passed table with
  | nil =>
    rw [order, List.append_nil]
    exact inv
  | cons v rest ih =>
    have notTop := ne_top_of_passed range order top
    exact ih (inv.step range order notTop) (by simp [order]) (List.mem_append_left _ top)

theorem next (range : g.InRange) (inv : g.Passing k [g.top] table) :
    g.Passing (k + 1) [g.top]
      (pass g.postorderRanks g.sources g.reversePostorder.tail table) := by
  have whole := inv.pass_rest range (g.reversePostorder_eq_cons range) List.mem_cons_self
  have reach {v : Nat} {vs : List Nat} (p : g.Path g.top vs v) : v ∈ g.reversePostorder :=
    (g.mem_reversePostorder range).mpr ⟨vs, p⟩
  exact
    { toCandidacy := whole.toCandidacy
      ready := fun v _ p _ => whole.passed_isSome v (reach p)
      covered := fun v vs p short => whole.ahead v (reach p) vs p short
      passed_isSome := List.forall_mem_singleton.mpr whole.top_isSome
      ahead := List.forall_mem_singleton.mpr (covered_top whole.toCandidacy (k + 1 + 1)) }

end Passing

def startTable (g : Graph) : Candidates :=
  (Array.replicate (g.size + 1) none).setIfInBounds g.top (some g.top)

theorem entry_startTable (v : Nat) :
    entry g.startTable v = if v = g.top then some g.top else none := by
  have bound : g.top < (Array.replicate (g.size + 1) (none : Option Nat)).size := by
    simp [top]
  rw [startTable, entry_setIfInBounds _ _ bound, entry, Array.getElem?_replicate]
  split <;> [rfl; (split <;> rfl)]

theorem passing_start (g : Graph) : g.Passing 0 [g.top] g.startTable := by
  have own : entry g.startTable g.top = some g.top := by rw [entry_startTable, if_pos rfl]
  have only {v p : Nat} (eq : entry g.startTable v = some p) : v = g.top := by
    rw [entry_startTable] at eq
    by_contra ne
    simp [ne] at eq
  have candidacy : g.Candidacy g.startTable :=
    { own
      rises := fun v p eq notTop => absurd (only eq) notTop
      size_eq := by simp [startTable]
      reachable := fun v p eq => only eq ▸ g.reachable_top
      keeps := fun v p eq notTop => absurd (only eq) notTop }
  have start {v : Nat} {vs : List Nat} (p : g.Path g.top vs v) (short : vs.length ≤ 0) :
      v = g.top := by
    rcases p.last_step with ⟨_, eq⟩ | ⟨us, u, rfl, _⟩
    · exact eq.symm
    · simp at short
  refine
    { toCandidacy := candidacy
      ready := fun v vs p short => ?_
      covered := fun v vs p short => ?_
      passed_isSome := List.forall_mem_singleton.mpr candidacy.top_isSome
      ahead := List.forall_mem_singleton.mpr (covered_top candidacy 1) }
  · rw [start p short, own]
    rfl
  · obtain rfl := start p short
    exact covered_top candidacy 0 vs p short

theorem settle_eq_iterate (ranks : Ranks) (preds : Array (List Nat)) (order : List Nat)
    (count : Nat) (table : Candidates) :
    settle ranks preds order count table = (pass ranks preds order)^[count] table := by
  induction count generalizing table with
  | zero => rfl
  | succ count ih =>
    rw [settle, Function.iterate_succ_apply]
    by_cases fixed : pass ranks preds order table = table
    · rw [if_pos fixed, fixed, Function.iterate_fixed fixed]
    · rw [if_neg fixed, ih]

theorem passing_iterate (range : g.InRange) (count : Nat) :
    g.Passing count [g.top]
      ((pass g.postorderRanks g.sources g.reversePostorder.tail)^[count] g.startTable) := by
  induction count with
  | zero => exact g.passing_start
  | succ count ih =>
    rw [Function.iterate_succ_apply']
    exact ih.next range

theorem passing_dominatorTable (range : g.InRange) :
    g.Passing g.enoughPasses [g.top] g.dominatorTable := by
  have unfolded : g.dominatorTable =
      settle g.postorderRanks g.sources g.reversePostorder.tail g.enoughPasses g.startTable := rfl
  rw [unfolded, settle_eq_iterate]
  exact passing_iterate range g.enoughPasses

namespace Passing

variable {k : Nat} {passed : List Nat}

theorem isSome_of_reachable (range : g.InRange) (inv : g.Passing k passed table)
    (enough : g.size + 1 ≤ k) (r : g.Reachable v) : (entry table v).isSome := by
  obtain ⟨vs, p⟩ := r
  obtain ⟨us, _, nodup, short⟩ := p.shorten
  exact inv.ready v us short ((short.length_le range (Nat.le_refl g.size) nodup).trans enough)

theorem ascends_iff (range : g.InRange) (inv : g.Passing k passed table)
    (enough : g.size + 1 ≤ k) (r : g.Reachable v) {d : Nat} :
    Ascends table v d ↔ g.Dominates d v := by
  constructor
  · intro path
    apply dominates_of_short range
    intro vs p short
    exact inv.covered v vs p (short.trans enough) d path
  · exact inv.ascends_of_dominates (inv.isSome_of_reachable range enough r)

theorem candidate_dominates (range : g.InRange) (inv : g.Passing k passed table)
    (enough : g.size + 1 ≤ k) {p : Nat} (eq : entry table v = some p) (notTop : v ≠ g.top) :
    p ≠ v ∧ g.Dominates p v ∧ ∀ d, d ≠ v → g.Dominates d v → g.Dominates d p := by
  have lt := (inv.rises v p eq notTop).1
  refine ⟨?_, ?_, fun d ne dom => inv.keeps v p eq notTop d dom ne⟩
  · rintro rfl
    omega
  · exact (inv.ascends_iff range enough (inv.reachable v p eq)).mp (.up eq (.refl table p))

theorem eq_of_dominates (range : g.InRange) (inv : g.Passing k passed table)
    (enough : g.size + 1 ≤ k) {d e : Nat} (r : g.Reachable d) (down : g.Dominates d e)
    (up : g.Dominates e d) : d = e := by
  have reach_e := up.reachable r
  exact inv.antisymm ((inv.ascends_iff range enough reach_e).mpr down)
    ((inv.ascends_iff range enough r).mpr up)

end Passing

theorem Dominates.antisymm (range : g.InRange) {d e : Nat} (r : g.Reachable d)
    (down : g.Dominates d e) (up : g.Dominates e d) : d = e :=
  (passing_iterate range (g.size + 1)).eq_of_dominates range (Nat.le_refl _) r down up

namespace Passing

variable {k : Nat} {passed : List Nat}

theorem unique (range : g.InRange) {table' : Candidates} {k' : Nat} {passed' : List Nat}
    (inv : g.Passing k passed table) (inv' : g.Passing k' passed' table')
    (enough : g.size + 1 ≤ k) (enough' : g.size + 1 ≤ k') : table = table' := by
  have same (v : Nat) : entry table v = entry table' v := by
    by_cases atTop : v = g.top
    · rw [atTop, inv.own, inv'.own]
    · by_cases r : g.Reachable v
      · obtain ⟨p, eq⟩ := Option.isSome_iff_exists.mp (inv.isSome_of_reachable range enough r)
        obtain ⟨p', eq'⟩ := Option.isSome_iff_exists.mp (inv'.isSome_of_reachable range enough' r)
        obtain ⟨ne, dom, nearest⟩ := inv.candidate_dominates range enough eq atTop
        obtain ⟨ne', dom', nearest'⟩ := inv'.candidate_dominates range enough' eq' atTop
        rw [eq, eq', Dominates.antisymm range (dom.reachable r) (nearest' p ne dom)
          (nearest p' ne' dom')]
      · have none_of {t : Candidates} (h : g.Candidacy t) : entry t v = none := by
          by_contra found
          obtain ⟨p, eq⟩ := Option.ne_none_iff_exists'.mp found
          exact r (h.reachable v p eq)
        rw [none_of inv.toCandidacy, none_of inv'.toCandidacy]
  exact eq_of_entry_eq (by rw [inv.size_eq, inv'.size_eq]) same

end Passing

theorem size_lt_enoughPasses (g : Graph) : g.size + 1 ≤ g.enoughPasses := by
  have : 1 * (g.size + 1) ≤ (g.size + 2) * (g.size + 1) := Nat.mul_le_mul_right _ (by omega)
  rw [enoughPasses, Nat.mul_comm]
  omega

theorem pass_dominatorTable (range : g.InRange) :
    pass g.postorderRanks g.sources g.reversePostorder.tail g.dominatorTable =
      g.dominatorTable := by
  have settled := passing_dominatorTable range
  have enough := g.size_lt_enoughPasses
  exact (settled.next range).unique range settled (enough.trans (Nat.le_succ _)) enough

def ImmediatelyDominates (g : Graph) (d v : Nat) : Prop :=
  d < g.size ∧ d ≠ v ∧ g.Dominates d v ∧
    ∀ e, e < g.size → e ≠ v → g.Dominates e v → g.Dominates e d

theorem immediateDominators_getElem? (range : g.InRange) (bound : v < g.size) :
    g.immediateDominators[v]? = some ((entry g.dominatorTable v).filter (· ≠ g.top)) := by
  have size_eq := (passing_dominatorTable range).size_eq
  have lt : v < g.dominatorTable.size := by omega
  have kept : (g.dominatorTable.take g.size)[v]? = g.dominatorTable[v]? := by
    rw [Array.take_eq_extract, Array.getElem?_extract, if_pos (by omega), Nat.zero_add]
  rw [immediateDominators, Array.getElem?_map, kept, entry, Array.getElem?_eq_getElem lt]
  rfl

theorem entry_dominatorTable_eq_some_iff (range : g.InRange) (bound : v < g.size) {d : Nat} :
    (entry g.dominatorTable v).filter (· ≠ g.top) = some d ↔
      g.Reachable v ∧ g.ImmediatelyDominates d v := by
  have settled := passing_dominatorTable range
  have enough := g.size_lt_enoughPasses
  have notTop : v ≠ g.top := Nat.ne_of_lt bound
  constructor
  · intro eq
    obtain ⟨eq, low⟩ := Option.filter_eq_some_iff.mp eq
    have r := settled.reachable v d eq
    obtain ⟨ne, dom, nearest⟩ := settled.candidate_dominates range enough eq notTop
    exact ⟨r, (dom.reachable r).lt_size range (by simpa using low), ne, dom,
      fun e _ => nearest e⟩
  · rintro ⟨r, low, ne, dom, nearest⟩
    obtain ⟨p, eq⟩ := Option.isSome_iff_exists.mp (settled.isSome_of_reachable range enough r)
    obtain ⟨ne', dom', nearest'⟩ := settled.candidate_dominates range enough eq notTop
    have up := nearest' d ne dom
    have lowTop : d ≠ g.top := Nat.ne_of_lt low
    have pNotTop : p ≠ g.top := by
      rintro rfl
      exact lowTop (eq_top_of_dominates_top up)
    have same : p = d := Dominates.antisymm range (dom'.reachable r)
      (nearest p ((dom'.reachable r).lt_size range pNotTop) ne' dom') up
    subst same
    rw [eq]
    simpa using pNotTop

theorem immediateDominators_eq_some_iff (range : g.InRange) (bound : v < g.size) {d : Nat} :
    g.immediateDominators[v]? = some (some d) ↔
      g.Reachable v ∧ g.ImmediatelyDominates d v := by
  rw [immediateDominators_getElem? range bound, Option.some_inj,
    entry_dominatorTable_eq_some_iff range bound]

theorem immediateDominators_eq_none_iff (range : g.InRange) (bound : v < g.size) :
    g.immediateDominators[v]? = some none ↔
      ¬g.Reachable v ∨ ¬∃ d, d < g.size ∧ d ≠ v ∧ g.Dominates d v := by
  have settled := passing_dominatorTable range
  have enough := g.size_lt_enoughPasses
  have notTop : v ≠ g.top := Nat.ne_of_lt bound
  rw [immediateDominators_getElem? range bound, Option.some_inj]
  constructor
  · intro none_v
    by_cases r : g.Reachable v
    · refine .inr ?_
      rintro ⟨d, low, ne, dom⟩
      obtain ⟨p, eq⟩ := Option.isSome_iff_exists.mp (settled.isSome_of_reachable range enough r)
      have atTop : p = g.top := by simpa [eq] using none_v
      subst atTop
      obtain ⟨_, _, nearest⟩ := settled.candidate_dominates range enough eq notTop
      exact absurd (eq_top_of_dominates_top (nearest d ne dom)) (Nat.ne_of_lt low)
    · exact .inl r
  · intro h
    by_contra found
    obtain ⟨d, eq⟩ := Option.ne_none_iff_exists'.mp found
    obtain ⟨r, low, ne, dom, _⟩ := (entry_dominatorTable_eq_some_iff range bound).mp eq
    exact h.elim (fun out => out r) fun none_d => none_d ⟨d, low, ne, dom⟩

end HeapLens.Graph
