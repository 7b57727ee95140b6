import HeapLens.Proofs.Graph.Meeting
import HeapLens.Proofs.Graph.Settling

/-!
# Passes raise candidates

No candidate ever moves down. Two facts hold in between any two updates: no common ancestor of the
sources of a vertex is ranked below its candidate, and candidates are found among the vertices that
a vertex stems from, by way of sources that outrank their targets. In a pass whatever lies above a
vertex lies above these sources too. So the new candidate of a vertex is an ancestor of the old one,
and updates in place only take ancestors away.
-/

set_option autoImplicit false

namespace HeapLens.Graph

variable {g : Graph} {table table' : Candidates} {passed done rest : List Nat} {u v w x p m : Nat}

structure UpperSource (g : Graph) (v u : Nat) : Prop where
  reachable : g.Reachable u
  edge : v ∈ g.targets u
  outranks : rank g.postorderRanks v < rank g.postorderRanks u

def Stems (g : Graph) : Nat → Nat → Prop := Relation.ReflTransGen g.UpperSource

theorem Stems.rank_le (stems : g.Stems v x) :
    rank g.postorderRanks v ≤ rank g.postorderRanks x := by
  induction stems with
  | refl => exact Nat.le_refl _
  | tail _ step ih => exact ih.trans step.outranks.le

theorem exists_upperSource (range : g.InRange) (order : g.reversePostorder = passed ++ v :: rest)
    (notTop : v ≠ g.top) : ∃ u, g.UpperSource v u := by
  obtain ⟨u, mem, edge⟩ := exists_source_before range order notTop
  have reach : g.Reachable u := (g.mem_reversePostorder range).mp (by simp [order, mem])
  exact ⟨u, reach, edge, rank_lt_of_before range order mem⟩

namespace UpperSource

theorem mem_before (range : g.InRange) (order : g.reversePostorder = passed ++ v :: rest)
    (upper : g.UpperSource v u) : u ∈ passed := by
  have mem := (g.mem_reversePostorder range).mpr upper.reachable
  have lt := upper.outranks
  rw [order] at mem
  rcases List.mem_append.mp mem with before | at_v | after
  · exact before
  · omega
  · rename_i after
    obtain ⟨between, last, rfl⟩ := List.append_of_mem after
    have order' : g.reversePostorder = (passed ++ v :: between) ++ u :: last := by
      rw [order, List.append_assoc, List.cons_append]
    have := rank_lt_of_before range order' (u := v) (by simp)
    omega

theorem mem_passed (range : g.InRange) (order : g.reversePostorder = passed ++ rest)
    (mem : w ∈ passed) (upper : g.UpperSource w u) : u ∈ passed := by
  obtain ⟨front, between, rfl⟩ := List.append_of_mem mem
  have order' : g.reversePostorder = front ++ w :: (between ++ rest) := by
    rw [order, List.append_assoc, List.cons_append]
  exact List.mem_append_left _ (upper.mem_before range order')

end UpperSource

def Shared (g : Graph) (table : Candidates) (v x : Nat) : Prop :=
  ∀ s, g.Reachable s → v ∈ g.targets s → (entry table s).isSome → Ascends table s x

/-- What holds within a pass when `passed` has been gone through. -/
structure Raising (g : Graph) (passed : List Nat) (table : Candidates) : Prop
    extends Candidacy g table where
  passed_isSome : ∀ v ∈ passed, (entry table v).isSome
  stems : ∀ v p, entry table v = some p → g.Stems v p
  below : ∀ v ∈ passed, ∀ u, g.UpperSource v u → ∀ x, Ascends table v x →
    x = v ∨ Ascends table u x
  lowest : ∀ v p, entry table v = some p → v ≠ g.top → ∀ x, g.Shared table v x →
    rank g.postorderRanks p ≤ rank g.postorderRanks x

/-- Whether candidates are kept or replaced by vertices of higher rank. -/
def Raised (g : Graph) (table table' : Candidates) : Prop :=
  ∀ v p, entry table v = some p → ∃ q, entry table' v = some q ∧
    (q = p ∨ rank g.postorderRanks p < rank g.postorderRanks q)

theorem Raised.refl (table : Candidates) : g.Raised table table :=
  fun _ p eq => ⟨p, eq, .inl rfl⟩

theorem Raised.trans {table'' : Candidates} (first : g.Raised table table')
    (second : g.Raised table' table'') : g.Raised table table'' := by
  intro v p eq
  obtain ⟨q, eq', up⟩ := first v p eq
  obtain ⟨r, eq'', up'⟩ := second v q eq'
  refine ⟨r, eq'', ?_⟩
  rcases up with rfl | lt
  · exact up'
  · rcases up' with rfl | lt'
    · exact .inr lt
    · exact .inr (lt.trans lt')

theorem Rising.isSome_of_ascends {top : Nat} {ranks : Ranks} (h : Rising top ranks table)
    (some_v : (entry table v).isSome) (path : Ascends table v x) : (entry table x).isSome := by
  induction path with
  | refl => exact some_v
  | @tail y z _ edge _ =>
    by_cases atTop : y = top
    · rw [atTop, h.own] at edge
      rw [← Option.some.inj edge]
      exact h.top_isSome
    · exact (h.rises y z edge atTop).2

theorem Update.ascends_updated_of_rank_lt (range : g.InRange) (h : g.Candidacy table)
    (up : g.Update table v) (lt : rank g.postorderRanks v < rank g.postorderRanks w)
    (path : Ascends table w x) : Ascends (g.updated table v) w x := by
  induction path using Relation.ReflTransGen.head_induction_on with
  | refl => exact .refl _ x
  | @head w q edge _ ih =>
    have ne : w ≠ v := by
      rintro rfl
      exact Nat.lt_irrefl _ lt
    refine .up ((up.entry_of_ne range h ne).trans edge) (ih ?_)
    have le := h.rank_le (Ascends.up edge (.refl table q))
    omega

namespace Raising

theorem stems_of_ascends (inv : g.Raising passed table) (path : Ascends table v x) :
    g.Stems v x := by
  induction path with
  | refl => exact .refl
  | tail _ edge ih => exact ih.trans (inv.stems _ _ edge)

theorem ascends_of_stems (range : g.InRange) (inv : g.Raising passed table)
    (order : g.reversePostorder = passed ++ rest) (mem : w ∈ passed) (stems : g.Stems w m)
    (path : Ascends table w x) (le : rank g.postorderRanks m ≤ rank g.postorderRanks x) :
    Ascends table m x := by
  induction stems using Relation.ReflTransGen.head_induction_on with
  | refl => exact path
  | @head w u upper above ih =>
    rcases inv.below w mem u upper x path with rfl | path'
    · have below_m := Stems.rank_le above
      have outranked := upper.outranks
      omega
    · exact ih (upper.mem_passed range order mem) path'

theorem ascends_candidate (range : g.InRange) (inv : g.Raising passed table)
    (order : g.reversePostorder = passed ++ v :: rest) (notTop : v ≠ g.top)
    (old : entry table v = some p) (shared : g.Shared table v m) : Ascends table p m := by
  have le := inv.lowest v p old notTop m shared
  -- Other ways to `p` may not be up to date: only those by upper sources have been gone through.
  rcases (inv.stems v p old).cases_head with rfl | ⟨u, upper, above⟩
  · exact absurd (inv.rises v v old notTop).1 (Nat.lt_irrefl _)
  · have mem := upper.mem_before range order
    have path := shared u upper.reachable upper.edge (inv.passed_isSome u mem)
    exact inv.ascends_of_stems range order mem above path le

theorem ascends_of_updated (range : g.InRange) (inv : g.Raising passed table)
    (order : g.reversePostorder = passed ++ v :: rest) (notTop : v ≠ g.top)
    (some_w : (entry table w).isSome) (path : Ascends (g.updated table v) w x) :
    Ascends table w x := by
  have up := Update.of_passed range order notTop inv.passed_isSome
  obtain ⟨m, new, _, outranks, _, common⟩ := up.exists_candidate range inv.toCandidacy
  rcases up.ascends_updated range inv.toCandidacy path with old | ⟨to_v, from_v⟩
  · exact old
  · obtain ⟨p, old⟩ := Option.isSome_iff_exists.mp (inv.isSome_of_ascends some_w to_v)
    rcases (Ascends.iff_of_entry new x).mp from_v with rfl | from_m
    · exact to_v
    · have above := up.ascends_of_rank_lt range inv.toCandidacy outranks from_m
      have between := inv.ascends_candidate range order notTop old ((common m).mp (.refl table m))
      exact to_v.trans (Ascends.up old (between.trans above))

theorem shared_of_updated (range : g.InRange) (inv : g.Raising passed table)
    (order : g.reversePostorder = passed ++ v :: rest) (notTop : v ≠ g.top)
    (shared : g.Shared (g.updated table v) w x) : g.Shared table w x := by
  have up := Update.of_passed range order notTop inv.passed_isSome
  intro s reach edge some_s
  have path := shared s reach edge (up.isSome_updated range inv.toCandidacy some_s)
  exact inv.ascends_of_updated range order notTop some_s path

theorem stems_of_shared (range : g.InRange) (inv : g.Raising passed table)
    (order : g.reversePostorder = passed ++ v :: rest) (notTop : v ≠ g.top)
    (shared : g.Shared table v m) : g.Stems v m := by
  obtain ⟨u, upper⟩ := exists_upperSource range order notTop
  have some_u := inv.passed_isSome u (upper.mem_before range order)
  exact .head upper (inv.stems_of_ascends (shared u upper.reachable upper.edge some_u))

theorem step (range : g.InRange) (inv : g.Raising passed table)
    (order : g.reversePostorder = passed ++ v :: rest) (notTop : v ≠ g.top) :
    g.Raising (passed ++ [v]) (g.updated table v) := by
  have up := Update.of_passed range order notTop inv.passed_isSome
  have h := inv.toCandidacy
  obtain ⟨m, new, _, outranks, _, common⟩ := up.exists_candidate range h
  refine
    { toCandidacy := up.candidacy range h
      passed_isSome := ?_
      stems := ?_
      below := ?_
      lowest := ?_ }
  · intro w mem
    rcases List.mem_append.mp mem with old | at_v
    · exact up.isSome_updated range h (inv.passed_isSome w old)
    · rw [List.mem_singleton.mp at_v, new]
      rfl
  · intro w q eq
    by_cases at_v : w = v
    · subst at_v
      obtain rfl := Option.some.inj (new.symm.trans eq)
      exact inv.stems_of_shared range order notTop ((common m).mp (.refl table m))
    · rw [up.entry_of_ne range h at_v] at eq
      exact inv.stems w q eq
  · intro w mem u upper x path
    rcases List.mem_append.mp mem with old | at_v
    · have lt := rank_lt_of_before range order old
      have old_path := up.ascends_of_rank_lt range h lt path
      exact (inv.below w old u upper x old_path).imp id
        (up.ascends_updated_of_rank_lt range h (lt.trans upper.outranks))
    · obtain rfl := List.mem_singleton.mp at_v
      by_cases same : x = w
      · exact .inl same
      · have some_u := inv.passed_isSome u (upper.mem_before range order)
        have above := up.ascends_source range h path same upper.reachable upper.edge some_u
        exact .inr (up.ascends_updated_of_rank_lt range h upper.outranks above)
  · intro w q eq top x shared
    have shared' := inv.shared_of_updated range order notTop shared
    by_cases at_v : w = v
    · subst at_v
      obtain rfl := Option.some.inj (new.symm.trans eq)
      exact h.rank_le ((common x).mpr shared')
    · rw [up.entry_of_ne range h at_v] at eq
      exact inv.lowest w q eq top x shared'

theorem raised_updated (range : g.InRange) (inv : g.Raising passed table)
    (order : g.reversePostorder = passed ++ v :: rest) (notTop : v ≠ g.top) :
    g.Raised table (g.updated table v) := by
  have up := Update.of_passed range order notTop inv.passed_isSome
  have h := inv.toCandidacy
  obtain ⟨m, new, _, _, _, common⟩ := up.exists_candidate range h
  intro w p old
  by_cases at_v : w = v
  · subst at_v
    have path := inv.ascends_candidate range order notTop old ((common m).mp (.refl table m))
    exact ⟨m, new, h.eq_or_rank_lt path⟩
  · exact ⟨p, (up.entry_of_ne range h at_v).trans old, .inl rfl⟩

theorem pass_part (range : g.InRange) (inv : g.Raising passed table)
    (order : g.reversePostorder = passed ++ (done ++ rest)) (top : g.top ∈ passed) :
    g.Raising (passed ++ done) (pass g.postorderRanks g.sources done table) ∧
      g.Raised table (pass g.postorderRanks g.sources done table) := by
  induction done generalizing passed table with
  | nil =>
    rw [List.append_nil]
    exact ⟨inv, .refl table⟩
  | cons v done ih =>
    have notTop := ne_top_of_passed range order top
    have order' : g.reversePostorder = (passed ++ [v]) ++ (done ++ rest) := by simp [order]
    obtain ⟨later, raised⟩ :=
      ih (inv.step range order notTop) order' (List.mem_append_left _ top)
    rw [List.append_assoc] at later
    exact ⟨later, (inv.raised_updated range order notTop).trans raised⟩

theorem restart (inv : g.Raising passed table) : g.Raising [g.top] table where
  toCandidacy := inv.toCandidacy
  passed_isSome := List.forall_mem_singleton.mpr inv.top_isSome
  stems := inv.stems
  below := List.forall_mem_singleton.mpr fun _ _ _ path => .inl (inv.eq_top path)
  lowest := inv.lowest

end Raising

theorem raising_start (g : Graph) : g.Raising [g.top] g.startTable := by
  have candidacy := g.passing_start.toCandidacy
  have only {v p : Nat} (eq : entry g.startTable v = some p) : v = g.top ∧ p = g.top := by
    rw [entry_startTable] at eq
    split at eq
    · rename_i at_top
      exact ⟨at_top, (Option.some.inj eq).symm⟩
    · cases eq
  exact
    { toCandidacy := candidacy
      passed_isSome := List.forall_mem_singleton.mpr candidacy.top_isSome
      stems := fun v p eq => by
        obtain ⟨rfl, rfl⟩ := only eq
        exact .refl
      below := List.forall_mem_singleton.mpr fun _ _ _ path => .inl (candidacy.eq_top path)
      lowest := fun v p eq notTop => absurd (only eq).1 notTop }

def passOver (g : Graph) : Candidates → Candidates :=
  pass g.postorderRanks g.sources g.reversePostorder.tail

def tableAfter (g : Graph) (count : Nat) : Candidates := g.passOver^[count] g.startTable

theorem raising_passOver (range : g.InRange) (inv : g.Raising [g.top] table) :
    g.Raising g.reversePostorder (g.passOver table) ∧ g.Raised table (g.passOver table) := by
  have whole := g.reversePostorder_eq_cons range
  rw [← List.append_nil g.reversePostorder.tail] at whole
  have both := inv.pass_part range whole List.mem_cons_self
  rw [List.singleton_append, ← g.reversePostorder_eq_cons range] at both
  exact both

theorem tableAfter_succ (count : Nat) :
    g.tableAfter (count + 1) = g.passOver (g.tableAfter count) :=
  Function.iterate_succ_apply' g.passOver count g.startTable

theorem raising_tableAfter (range : g.InRange) (count : Nat) :
    g.Raising [g.top] (g.tableAfter count) := by
  induction count with
  | zero => exact g.raising_start
  | succ count ih =>
    rw [tableAfter_succ]
    exact (raising_passOver range ih).1.restart

theorem isSome_tableAfter (range : g.InRange) (count : Nat) (reach : g.Reachable v) :
    (entry (g.tableAfter (count + 1)) v).isSome := by
  rw [tableAfter_succ]
  have later := (raising_passOver range (raising_tableAfter range count)).1
  exact later.passed_isSome v ((g.mem_reversePostorder range).mpr reach)

theorem raised_tableAfter (range : g.InRange) (count : Nat) :
    g.Raised (g.tableAfter count) (g.tableAfter (count + 1)) := by
  rw [tableAfter_succ]
  exact (raising_passOver range (raising_tableAfter range count)).2

/-- A table that differs from the one before has a candidate of higher rank. -/
theorem Raised.exists_higher (raised : g.Raised table table') (h : g.Candidacy table)
    (h' : g.Candidacy table') (isSome : ∀ v, g.Reachable v → (entry table v).isSome)
    (changed : table' ≠ table) :
    ∃ v p q, entry table v = some p ∧ entry table' v = some q ∧
      rank g.postorderRanks p < rank g.postorderRanks q := by
  by_contra none_higher
  refine changed (eq_of_entry_eq (by rw [h'.size_eq, h.size_eq]) fun v => ?_)
  cases at_v : entry table v with
  | none =>
    by_contra found
    obtain ⟨q, eq⟩ := Option.ne_none_iff_exists'.mp found
    have some_v := isSome v (h'.reachable v q eq)
    rw [at_v] at some_v
    cases some_v
  | some p =>
    obtain ⟨q, eq, rfl | higher⟩ := raised v p at_v
    · exact eq
    · exact absurd ⟨v, p, q, at_v, eq, higher⟩ none_higher

theorem Candidacy.ranked (range : g.InRange) (h : g.Candidacy table) :
    Ranked g.postorderRanks table where
  bound v some_v := by
    obtain ⟨p, eq⟩ := Option.isSome_iff_exists.mp some_v
    have le := (h.reachable v p eq).le_size range
    rw [size_postorderRanks]
    omega
  injective v w some_v some_w same := by
    obtain ⟨p, eq⟩ := Option.isSome_iff_exists.mp some_v
    obtain ⟨q, eq'⟩ := Option.isSome_iff_exists.mp some_w
    have reach := h.reachable v p eq
    have reach' := h.reachable w q eq'
    rw [rank_eq_idxOf range reach, rank_eq_idxOf range reach'] at same
    exact (List.idxOf_inj ((g.mem_postorder range).mpr reach)).mp same

/-- Whether candidates outrank their vertices, and any two climbs in the table meet. -/
structure Climbable (g : Graph) (table : Candidates) : Prop where
  outranks : ∀ v p, entry table v = some p → v ≠ g.top →
    rank g.postorderRanks v < rank g.postorderRanks p
  meets : ∀ a b, (entry table a).isSome → (entry table b).isSome →
    MeetAt table g.postorderRanks a b (meet table g.postorderRanks a b)

theorem Candidacy.climbable (range : g.InRange) (h : g.Candidacy table) : g.Climbable table where
  outranks v p eq notTop := (h.rises v p eq notTop).1
  meets _ _ := h.meetAt_meet (h.ranked range)

theorem climbable_part (range : g.InRange) (count : Nat)
    (order : g.reversePostorder.tail = done ++ rest) :
    g.Climbable (pass g.postorderRanks g.sources done (g.tableAfter count)) := by
  have whole : g.reversePostorder = [g.top] ++ (done ++ rest) := by
    rw [← order]
    exact g.reversePostorder_eq_cons range
  have part := (raising_tableAfter range count).pass_part range whole List.mem_cons_self
  exact part.1.toCandidacy.climbable range

theorem tableAfter_size_add_one (range : g.InRange) :
    g.tableAfter (g.size + 1) = g.dominatorTable :=
  (passing_iterate range (g.size + 1)).unique range (passing_dominatorTable range)
    (Nat.le_refl _) g.size_lt_enoughPasses

theorem finishes_startTable (range : g.InRange) :
    Finishes (Changes g.passOver) g.startTable g.dominatorTable := by
  rw [← tableAfter_size_add_one range]
  apply finishes_iterate
  change g.passOver (g.tableAfter (g.size + 1)) = g.tableAfter (g.size + 1)
  rw [tableAfter_size_add_one range]
  exact pass_dominatorTable range

/--
After the first pass every reachable vertex has a candidate. At every moment candidates outrank
their vertices and climbs meet. Passes only replace candidates by vertices of higher rank, and one
that changes anything after the first does so for some vertex; they finish, with as many of them as
there are vertices at the latest.
-/
theorem passes_raise_until_settled (range : g.InRange) :
    (∀ count v, g.Reachable v → (entry (g.tableAfter (count + 1)) v).isSome) ∧
      (∀ count done rest, g.reversePostorder.tail = done ++ rest →
        g.Climbable (pass g.postorderRanks g.sources done (g.tableAfter count))) ∧
      (∀ count, g.Raised (g.tableAfter count) (g.tableAfter (count + 1))) ∧
      (∀ count, g.tableAfter (count + 2) ≠ g.tableAfter (count + 1) →
        ∃ v p q, entry (g.tableAfter (count + 1)) v = some p ∧
          entry (g.tableAfter (count + 2)) v = some q ∧
          rank g.postorderRanks p < rank g.postorderRanks q) ∧
      g.tableAfter (g.size + 1) = g.dominatorTable ∧
      Finishes (Changes g.passOver) g.startTable g.dominatorTable := by
  refine ⟨fun count v => isSome_tableAfter range count,
    fun count done rest => climbable_part range count, raised_tableAfter range, ?_,
    tableAfter_size_add_one range, finishes_startTable range⟩
  intro count changed
  exact (raised_tableAfter range (count + 1)).exists_higher
    (raising_tableAfter range (count + 1)).toCandidacy
    (raising_tableAfter range (count + 2)).toCandidacy
    (fun v => isSome_tableAfter range count) changed

def crossing : Graph := ⟨#[[1], [0, 2], [1], [1, 2], [0]], [3, 4]⟩

theorem inRange_crossing : crossing.InRange := inRange_of_all (by decide) (by decide)

theorem reversePostorder_crossing : crossing.reversePostorder = [5, 4, 3, 1, 2, 0] := by cbv

theorem ranks_crossing : crossing.postorderRanks = #[0, 2, 1, 3, 4, 5] := by
  rw [postorderRanks, postorder, reversePostorder_crossing]
  decide

theorem sources_crossing : crossing.sources = #[[4, 1], [3, 2, 0], [3, 1], [5], [5], []] := by
  rw [sources, postorder, reversePostorder_crossing]
  decide

theorem passOver_crossing : crossing.passOver = pass #[0, 2, 1, 3, 4, 5]
    #[[4, 1], [3, 2, 0], [3, 1], [5], [5], []] [4, 3, 1, 2, 0] := by
  rw [passOver, ranks_crossing, sources_crossing, reversePostorder_crossing, List.tail_cons]

theorem tableAfter_crossing :
    crossing.tableAfter 1 = #[some 5, some 3, some 3, some 5, some 5, some 5] ∧
      crossing.tableAfter 2 = #[some 5, some 5, some 5, some 5, some 5, some 5] := by
  rw [tableAfter, tableAfter, passOver_crossing]
  decide

theorem passes_raise_crossing :
    crossing.Raised (crossing.tableAfter 1) (crossing.tableAfter 2) ∧
      (∃ v p q, entry (crossing.tableAfter 1) v = some p ∧
        entry (crossing.tableAfter 2) v = some q ∧
        rank crossing.postorderRanks p < rank crossing.postorderRanks q) ∧
      Finishes (Changes crossing.passOver) crossing.startTable crossing.dominatorTable := by
  obtain ⟨_, _, raised, higher, _, finishes⟩ := passes_raise_until_settled inRange_crossing
  refine ⟨raised 1, higher 0 ?_, finishes⟩
  rw [tableAfter_crossing.1, tableAfter_crossing.2]
  decide

end HeapLens.Graph
