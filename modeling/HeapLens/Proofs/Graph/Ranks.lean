import HeapLens.Graph.Dominators
import HeapLens.Proofs.Graph.DepthFirst

set_option autoImplicit false

namespace HeapLens.Graph

variable {g : Graph}

theorem getElem?_number_of_notMem (l : List Nat) (k : Nat) (ranks : Ranks) {v : Nat}
    (out : v ∉ l) :
    ((l.zipIdx k).foldl (fun ranks (v, i) => ranks.setIfInBounds v i) ranks)[v]? = ranks[v]? := by
  induction l generalizing k ranks with
  | nil => rfl
  | cons a l ih =>
    obtain ⟨ne, out⟩ : v ≠ a ∧ v ∉ l := by simpa using out
    rw [List.zipIdx_cons, List.foldl_cons, ih (k + 1) _ out]
    exact Array.getElem?_setIfInBounds_ne (Ne.symm ne)

theorem getElem?_number (l : List Nat) (k : Nat) (ranks : Ranks) (nodup : l.Nodup)
    (bound : ∀ v ∈ l, v < ranks.size) {v : Nat} (mem : v ∈ l) :
    ((l.zipIdx k).foldl (fun ranks (v, i) => ranks.setIfInBounds v i) ranks)[v]? =
      some (k + l.idxOf v) := by
  induction l generalizing k ranks with
  | nil => simp at mem
  | cons a l ih =>
    obtain ⟨out, nodup⟩ := List.nodup_cons.mp nodup
    rw [List.zipIdx_cons, List.foldl_cons]
    by_cases eq : v = a
    · subst eq
      rw [getElem?_number_of_notMem l (k + 1) _ out, Array.getElem?_setIfInBounds_self_of_lt
        (bound v List.mem_cons_self)]
      simp
    · have mem : v ∈ l := by simpa [eq] using mem
      rw [ih (k + 1) _ nodup (by simpa using fun v hv => bound v (List.mem_cons_of_mem a hv)) mem,
        List.idxOf_cons_ne l (Ne.symm eq)]
      congr 1
      omega

def postorderRanks (g : Graph) : Ranks := g.ranksOf g.postorder

/-- The vertices that refer to each vertex, as far as they are reachable. -/
def sources (g : Graph) : Array (List Nat) := g.predecessors g.postorder

theorem size_number (l : List (Nat × Nat)) (ranks : Ranks) :
    (l.foldl (fun ranks (v, i) => ranks.setIfInBounds v i) ranks).size = ranks.size := by
  induction l generalizing ranks with
  | nil => rfl
  | cons a l ih => rw [List.foldl_cons, ih, Array.size_setIfInBounds]

theorem size_postorderRanks : g.postorderRanks.size = g.size + 1 := by
  rw [postorderRanks, ranksOf, size_number, Array.size_replicate]

theorem mem_postorder (range : g.InRange) {v : Nat} : v ∈ g.postorder ↔ g.Reachable v := by
  rw [postorder, List.mem_reverse, g.mem_reversePostorder range]

theorem postorder_nodup (range : g.InRange) : g.postorder.Nodup :=
  List.nodup_reverse.mpr (g.reversePostorder_nodup range)

theorem rank_eq_idxOf (range : g.InRange) {v : Nat} (r : g.Reachable v) :
    rank g.postorderRanks v = g.postorder.idxOf v := by
  have mem := (g.mem_postorder range).mpr r
  have bound : ∀ w ∈ g.postorder, w < (Array.replicate (g.size + 1) 0 : Ranks).size := by
    intro w hw
    have := ((g.mem_postorder range).mp hw).le_size range
    rw [Array.size_replicate]
    omega
  rw [rank, postorderRanks, ranksOf, getElem?_number _ 0 _ (g.postorder_nodup range) bound mem]
  simp

/-- Whatever stands before a vertex in the reversed order outranks it. -/
theorem rank_lt_of_before (range : g.InRange) {before after : List Nat} {v u : Nat}
    (eq : g.reversePostorder = before ++ v :: after) (mem : u ∈ before) :
    rank g.postorderRanks v < rank g.postorderRanks u := by
  have order : g.postorder = after.reverse ++ v :: before.reverse := by
    rw [postorder, eq, List.reverse_append, List.reverse_cons, List.append_assoc]
    rfl
  have nodup := g.postorder_nodup range
  rw [order, List.nodup_append] at nodup
  obtain ⟨_, inner, apart⟩ := nodup
  have reach (w : Nat) (hw : w ∈ g.postorder) : g.Reachable w := (g.mem_postorder range).mp hw
  have memBefore : u ∈ v :: before.reverse := by simp [mem]
  have ne : v ≠ u := by
    rintro rfl
    exact (List.nodup_cons.mp inner).1 (List.mem_reverse.mpr mem)
  rw [rank_eq_idxOf range (reach v (by simp [order])),
    rank_eq_idxOf range (reach u (by simp [order, mem])), order,
    List.idxOf_append_of_notMem fun h => apart v h v List.mem_cons_self rfl,
    List.idxOf_append_of_notMem fun h => apart u h u memBefore rfl,
    List.idxOf_cons_self, List.idxOf_cons_ne _ ne]
  omega

theorem mem_note (ts : List Nat) (table : Array (List Nat)) (v w u : Nat)
    (bound : ∀ t ∈ ts, t < table.size) :
    u ∈ (ts.foldl (fun table w => table.modify w (v :: ·)) table)[w]?.getD [] ↔
      u ∈ table[w]?.getD [] ∨ (u = v ∧ w ∈ ts) := by
  induction ts generalizing table with
  | nil => simp
  | cons t ts ih =>
    rw [List.foldl_cons, ih _ (by simpa using fun x hx => bound x (List.mem_cons_of_mem t hx)),
      Array.getElem?_modify]
    have lt := bound t List.mem_cons_self
    by_cases eq : t = w
    · subst eq
      simp only [if_true, Array.getElem?_eq_getElem lt, Option.map_some, Option.getD_some,
        List.mem_cons]
      tauto
    · simp only [eq, if_false, List.mem_cons, Ne.symm eq, false_or]

theorem size_note (ts : List Nat) (table : Array (List Nat)) (v : Nat) :
    (ts.foldl (fun table w => table.modify w (v :: ·)) table).size = table.size := by
  induction ts generalizing table with
  | nil => rfl
  | cons t ts ih => rw [List.foldl_cons, ih, Array.size_modify]

theorem mem_predecessors (range : g.InRange) (order : List Nat) {u w : Nat} :
    u ∈ (g.predecessors order)[w]?.getD [] ↔ u ∈ order ∧ w ∈ g.targets u := by
  have general (table : Array (List Nat)) (size_eq : table.size = g.size + 1) :
      u ∈ (order.foldl (fun table v => (g.targets v).foldl
        (fun table w => table.modify w (v :: ·)) table) table)[w]?.getD [] ↔
        u ∈ table[w]?.getD [] ∨ (u ∈ order ∧ w ∈ g.targets u) := by
    induction order generalizing table with
    | nil => simp
    | cons v order ih =>
      have bound : ∀ t ∈ g.targets v, t < table.size := by
        intro t ht
        have := range v t ht
        omega
      rw [List.foldl_cons, ih _ (by rw [size_note, size_eq]), mem_note _ _ _ _ _ bound,
        List.mem_cons]
      constructor
      · rintro ((old | ⟨rfl, edge⟩) | ⟨mem, edge⟩)
        · exact .inl old
        · exact .inr ⟨.inl rfl, edge⟩
        · exact .inr ⟨.inr mem, edge⟩
      · rintro (old | ⟨rfl | mem, edge⟩)
        · exact .inl (.inl old)
        · exact .inl (.inr ⟨rfl, edge⟩)
        · exact .inr ⟨mem, edge⟩
  rw [predecessors, general _ (by simp), Array.getElem?_replicate]
  split <;> simp

theorem mem_sources (range : g.InRange) {u w : Nat} :
    u ∈ g.sources[w]?.getD [] ↔ g.Reachable u ∧ w ∈ g.targets u := by
  rw [sources, mem_predecessors range, g.mem_postorder range]

end HeapLens.Graph
