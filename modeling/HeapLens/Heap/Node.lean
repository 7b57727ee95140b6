import HeapLens.Heap.Cell

/-!
# Descriptions of nodes

A heap is described node by node: what each one is, what it holds, and optionally its address and
its size. A `Snapshot` is a list of such descriptions, where the node at position `i` has the
number `i`, together with the roots of the garbage collector.
-/

set_option autoImplicit false

namespace HeapLens

inductive Kind where
  | plain
  | array
  | classNode
  | loader
  deriving DecidableEq, Repr

def Kind.name : Kind → String
  | .plain => "instance"
  | .array => "array"
  | .classNode => "class"
  | .loader => "class_loader"

structure Field where
  name : String
  cell : Cell
  declaredBy : Option NodeId
  deriving DecidableEq, Repr

/-- What a node holds, by its kind. -/
inductive Shape where
  | classNode (name : String) (superclass loader : Option NodeId) (statics : List Field)
  | plain (classId : NodeId) (fields : List Field)
  | loader (classId : NodeId) (fields : List Field)
  | array (classId : NodeId) (elements : List Cell)
  deriving DecidableEq, Repr

namespace Shape

def kind : Shape → Kind
  | .classNode .. => .classNode
  | .plain .. => .plain
  | .loader .. => .loader
  | .array .. => .array

/-- The class that the shape gives; the class of a class depends on the whole snapshot. -/
def classId? : Shape → Option NodeId
  | .classNode .. => none
  | .plain classId _ => some classId
  | .loader classId _ => some classId
  | .array classId _ => some classId

def className? : Shape → Option String
  | .classNode name .. => some name
  | _ => none

def superclass? : Shape → Option NodeId
  | .classNode _ superclass _ _ => superclass
  | _ => none

def loader? : Shape → Option NodeId
  | .classNode _ _ defining _ => defining
  | _ => none

def fields : Shape → List Field
  | .classNode _ _ _ statics => statics
  | .plain _ fields => fields
  | .loader _ fields => fields
  | .array .. => []

def elements : Shape → List Cell
  | .array _ elements => elements
  | _ => []

def slots (s : Shape) : Nat := s.fields.length + s.elements.length

def headerBytes : UInt64 := 16

def slotBytes : UInt64 := 8

/--
The size of a node whose description gives none: a class has four headers, every other node one.
-/
def defaultSize (s : Shape) : UInt64 :=
  (if s.kind = .classNode then 4 * headerBytes else headerBytes) +
    slotBytes * UInt64.ofNat s.slots

end Shape

structure Node where
  shape : Shape
  address : Option UInt64
  size : Option UInt64
  deriving DecidableEq, Repr

structure Snapshot where
  nodes : List Node
  roots : List NodeId
  deriving DecidableEq, Repr

end HeapLens
