import HeapLens.Graph.Basic
import Mathlib.Data.List.Nodup
import Mathlib.Data.Finset.Card

set_option autoImplicit false

namespace HeapLens.Graph

variable {g : Graph}

theorem inRange_of_all (nodes : ∀ ts ∈ g.successors.toList, ∀ w ∈ ts, w < g.size)
    (roots : ∀ r ∈ g.roots, r < g.size) : g.InRange := by
  intro v w edge
  rw [targets] at edge
  split at edge
  · exact roots w edge
  · by_cases bound : v < g.successors.size
    · rw [Array.getElem?_eq_getElem bound] at edge
      exact nodes _ (Array.getElem_mem_toList bound) w edge
    · rw [Array.getElem?_eq_none (Nat.le_of_not_lt bound)] at edge
      cases edge

namespace Path

theorem snoc {v u w : Nat} {vs : List Nat} (p : g.Path v vs u) (edge : w ∈ g.targets u) :
    g.Path v (vs ++ [u]) w := by
  induction p with
  | here v => exact .step edge (.here w)
  | step first _ ih => exact .step first (ih edge)

theorem last_step {v w : Nat} {vs : List Nat} (p : g.Path v vs w) :
    (vs = [] ∧ v = w) ∨ ∃ us u, vs = us ++ [u] ∧ g.Path v us u ∧ w ∈ g.targets u := by
  induction p with
  | here v => exact .inl ⟨rfl, rfl⟩
  | @step v u w vs first _ ih =>
    rcases ih with ⟨rfl, rfl⟩ | ⟨us, x, rfl, path, edge⟩
    · exact .inr ⟨[], v, rfl, .here v, first⟩
    · exact .inr ⟨v :: us, x, rfl, .step first path, edge⟩

theorem split {v w x : Nat} {vs : List Nat} (p : g.Path v vs w) (mem : x ∈ vs) :
    ∃ us ws, vs = us ++ x :: ws ∧ g.Path v us x ∧ g.Path x (x :: ws) w := by
  induction p with
  | here v => simp at mem
  | @step v u w vs first rest ih =>
    by_cases eq : x = v
    · subst eq
      exact ⟨[], vs, rfl, .here x, .step first rest⟩
    · obtain ⟨us, ws, rfl, before, after⟩ := ih (by simpa [eq] using mem)
      exact ⟨v :: us, ws, rfl, .step first before, after⟩

/-- A walk without detours passes only through vertices of the walk that it comes from. -/
theorem shorten {v w : Nat} {vs : List Nat} (p : g.Path v vs w) :
    ∃ us, us ⊆ vs ∧ us.Nodup ∧ g.Path v us w := by
  induction p with
  | here v => exact ⟨[], List.Subset.refl [], List.nodup_nil, .here v⟩
  | @step v u w vs first _ ih =>
    obtain ⟨us, sub, nodup, path⟩ := ih
    by_cases mem : v ∈ us
    · obtain ⟨as, ws, rfl, _, tail⟩ := path.split mem
      refine ⟨v :: ws, ?_, (List.nodup_append.mp nodup).2.1, tail⟩
      intro x hx
      rcases List.mem_cons.mp hx with rfl | hx
      · exact List.mem_cons_self
      · exact List.mem_cons_of_mem v (sub (by simp [hx]))
    · exact ⟨v :: us, List.cons_subset_cons v sub, List.nodup_cons.mpr ⟨mem, nodup⟩,
        .step first path⟩

theorem le_size {v w : Nat} {vs : List Nat} (range : g.InRange) (p : g.Path v vs w)
    (start : v ≤ g.size) : (∀ x ∈ vs, x ≤ g.size) ∧ w ≤ g.size := by
  induction p with
  | here v => exact ⟨by simp, start⟩
  | @step v u w vs first _ ih =>
    obtain ⟨inner, last⟩ := ih (range v u first).le
    refine ⟨?_, last⟩
    intro x hx
    rcases List.mem_cons.mp hx with rfl | hx
    · exact start
    · exact inner x hx

theorem length_le {v w : Nat} {vs : List Nat} (range : g.InRange) (p : g.Path v vs w)
    (start : v ≤ g.size) (nodup : vs.Nodup) : vs.length ≤ g.size + 1 := by
  rw [← List.toFinset_card_of_nodup nodup, ← Finset.card_range (g.size + 1)]
  apply Finset.card_le_card
  intro x hx
  have := (p.le_size range start).1 x (List.mem_toFinset.mp hx)
  exact Finset.mem_range.mpr (by omega)

end Path

theorem reachable_top (g : Graph) : g.Reachable g.top := ⟨[], .here _⟩

theorem Reachable.target {u w : Nat} (h : g.Reachable u) (edge : w ∈ g.targets u) :
    g.Reachable w := by
  obtain ⟨vs, p⟩ := h
  exact ⟨vs ++ [u], p.snoc edge⟩

theorem Reachable.le_size {v : Nat} (range : g.InRange) (h : g.Reachable v) : v ≤ g.size := by
  obtain ⟨vs, p⟩ := h
  exact (p.le_size range (Nat.le_refl g.size)).2

theorem Reachable.lt_size {v : Nat} (range : g.InRange) (h : g.Reachable v) (ne : v ≠ g.top) :
    v < g.size := by
  have bound := h.le_size range
  have : v ≠ g.size := ne
  omega

theorem Dominates.trans {d e v : Nat} (h : g.Dominates d e) (h' : g.Dominates e v) :
    g.Dominates d v := by
  intro vs p
  rcases h' vs p with mem | rfl
  · obtain ⟨us, ws, rfl, before, _⟩ := p.split mem
    rcases h us before with mem | rfl
    · exact .inl (List.mem_append_left _ mem)
    · exact .inl (by simp)
  · exact h vs p

theorem Dominates.source {d u w : Nat} (h : g.Dominates d w) (edge : w ∈ g.targets u)
    (ne : d ≠ w) : g.Dominates d u := by
  intro vs p
  rcases h (vs ++ [u]) (p.snoc edge) with mem | eq
  · simpa using mem
  · exact absurd eq ne

theorem eq_top_of_dominates_top {d : Nat} (h : g.Dominates d g.top) : d = g.top := by
  rcases h [] (.here _) with mem | eq
  · simp at mem
  · exact eq

theorem Dominates.reachable {d v : Nat} (h : g.Dominates d v) (r : g.Reachable v) :
    g.Reachable d := by
  obtain ⟨vs, p⟩ := r
  rcases h vs p with mem | rfl
  · obtain ⟨us, _, _, before, _⟩ := p.split mem
    exact ⟨us, before⟩
  · exact ⟨vs, p⟩

theorem dominates_of_short {d v : Nat} (range : g.InRange)
    (h : ∀ vs, g.Path g.top vs v → vs.length ≤ g.size + 1 → d ∈ vs ∨ d = v) :
    g.Dominates d v := by
  intro vs p
  obtain ⟨us, sub, nodup, short⟩ := p.shorten
  rcases h us short (short.length_le range (Nat.le_refl g.size) nodup) with mem | eq
  · exact .inl (sub mem)
  · exact .inr eq

end HeapLens.Graph
