import HeapLens.Graph.Dominators

set_option autoImplicit false

namespace HeapLens

/-- The sum, or the greatest number of 64 bits if the sum is beyond it. -/
def cappedAdd (a b : UInt64) : UInt64 :=
  if a.toNat + b.toNat < UInt64.size then a + b else UInt64.ofNat (UInt64.size - 1)

namespace Graph

def passOn (dominators : Array (Option Nat)) (retained : Array UInt64) (v : Nat) : Array UInt64 :=
  match dominators[v]?.getD none with
  | none => retained
  | some d => retained.modify d fun sum => cappedAdd sum (retained[v]?.getD 0)

/-- What each node retains, given the order of leaving them and their immediate dominators. -/
def accumulate (order : List Nat) (dominators : Array (Option Nat)) (sizes : Array UInt64) :
    Array UInt64 :=
  order.foldl (passOn dominators) sizes

def retainedSizes (g : Graph) (dominators : Array (Option Nat)) (sizes : Array UInt64) :
    Array UInt64 :=
  accumulate g.postorder dominators sizes

end Graph

end HeapLens
