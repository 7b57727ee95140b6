import HeapLens.Store.Basic

set_option autoImplicit false

namespace HeapLens.Store

/-- The chain from a class upwards, with at most `steps` classes. -/
def chainFrom (s : Store) : Nat → NodeId → List (Except Fault NodeId)
  | 0, _ => [.error (.corrupt .endlessHierarchy)]
  | steps + 1, node =>
    match s.superclass node with
    | .error fault => [.error fault]
    | .ok none => [.ok node]
    | .ok (some parent) => .ok node :: chainFrom s steps parent

def classChain (s : Store) (node : NodeId) : List (Except Fault NodeId) :=
  s.chainFrom s.nodeCount node

end HeapLens.Store
