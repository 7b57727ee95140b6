import HeapLens.Store.Basic

set_option autoImplicit false

namespace HeapLens

inductive Request where
  | kind
  | objectFields
  | staticFields
  | classOf
  | superclass
  | classLoader
  | className
  | size
  | retainedSize
  | dominator
  | address
  | arrayLength
  | element
  deriving DecidableEq, Repr

structure Refusal where
  request : Request
  node : Option NodeId
  fault : Fault
  deriving DecidableEq, Repr

structure Overlay where
  refusals : List Refusal
  superclasses : List (NodeId × Option NodeId)
  classes : List (NodeId × Option NodeId)
  arrayLengths : List (NodeId × Option UInt32)
  deriving DecidableEq, Repr

namespace Overlay

def refusal? (o : Overlay) (request : Request) (node : NodeId) : Option Fault :=
  (o.refusals.find? fun r => r.request = request && (r.node.isNone || r.node = some node)).map
    (·.fault)

def guarded {α : Type} (o : Overlay) (request : Request) (node : NodeId)
    (answer : Except Fault α) : Except Fault α :=
  match o.refusal? request node with
  | some fault => .error fault
  | none => answer

def replaced {α : Type} (table : List (NodeId × α)) (node : NodeId) (answer : Except Fault α) :
    Except Fault α :=
  match table.lookup node with
  | some a => .ok a
  | none => answer

/-- The store under the overlay. -/
def applyTo (o : Overlay) (s : Store) : Store where
  kind node := o.guarded .kind node (s.kind node)
  objectFields node := o.guarded .objectFields node (s.objectFields node)
  staticFields node := o.guarded .staticFields node (s.staticFields node)
  classOf node := o.guarded .classOf node <|
    match o.classes.lookup node with
    | some (some classId) => .ok classId
    | _ => s.classOf node
  superclass node := o.guarded .superclass node (replaced o.superclasses node (s.superclass node))
  classLoader node := o.guarded .classLoader node (s.classLoader node)
  className node := o.guarded .className node (s.className node)
  size node := o.guarded .size node (s.size node)
  retainedSize node := o.guarded .retainedSize node (s.retainedSize node)
  dominator node := o.guarded .dominator node (s.dominator node)
  address node := o.guarded .address node (s.address node)
  arrayLength node :=
    o.guarded .arrayLength node (replaced o.arrayLengths node (s.arrayLength node))
  element node i := o.guarded .element node (s.element node i)
  nodeAt := s.nodeAt
  roots := s.roots
  nodeCount := s.nodeCount

end Overlay

end HeapLens
