set_option autoImplicit false

namespace HeapLens.Hierarchy

inductive Mark where
  | fresh
  | climbing
  | cleared
  deriving DecidableEq, Repr

structure Climb where
  marks : Array Mark
  met : List Nat
  deriving DecidableEq, Repr

/-- Climbs from `v`; the error is the node that is met twice. -/
def climb (parent : Nat → Option Nat) (c : Climb) (v : Nat) : Except Nat Climb :=
  if h : ∃ bound : v < c.marks.size, c.marks[v] = .fresh then
    let c' : Climb := ⟨c.marks.set v .climbing h.1, v :: c.met⟩
    match parent v with
    | none => .ok c'
    | some w => climb parent c' w
  else if c.marks[v]? = some .climbing then .error v
  else .ok c
termination_by c.marks.count .fresh
decreasing_by
  obtain ⟨bound, isFresh⟩ := h
  have positive : 0 < c.marks.count .fresh := by
    rw [Array.count_pos_iff, ← isFresh]
    exact Array.getElem_mem bound
  rw [Array.count_set bound, isFresh]
  simpa using Nat.sub_lt positive Nat.one_pos

def clear (c : Climb) : Array Mark :=
  c.met.foldl (fun marks v => marks.setIfInBounds v .cleared) c.marks

def climbAll (parent : Nat → Option Nat) : Array Mark → List Nat → Except Nat (Array Mark)
  | marks, [] => .ok marks
  | marks, v :: rest =>
    match climb parent ⟨marks, []⟩ v with
    | .error w => .error w
    | .ok c => climbAll parent (clear c) rest

/-- A node of the nodes `0 … count - 1` whose superclass chain comes back to it. -/
def findCycle (parent : Nat → Option Nat) (count : Nat) : Option Nat :=
  match climbAll parent (Array.replicate count .fresh) (List.range count) with
  | .error v => some v
  | .ok _ => none

end HeapLens.Hierarchy
