import HeapLens.Graph.Retained
import HeapLens.Heap.Hierarchy
import HeapLens.Heap.Node

/-!
# Heaps

`Heap.ofSnapshot` checks a snapshot, completes its nodes by their defaults, and computes dominators
and retained sizes once. A heap is never changed afterwards.

A snapshot is refused for the first of its defects: the nodes are checked one after the other, then
the superclass chains, the roots, and the addresses.
-/

set_option autoImplicit false

namespace HeapLens

inductive Defect where
  | tooManyNodes (count : Nat)
  | missingNode (node target : NodeId)
  | classNotClass (node : NodeId)
  | superclassNotClass (node : NodeId)
  | declaredByNotClass (node declarer : NodeId)
  | cyclicHierarchy (node : NodeId)
  | missingRoot (root : NodeId)
  | sharedAddress (address : UInt64)
  deriving DecidableEq, Repr

def Defect.message : Defect → String
  | .tooManyNodes count =>
    "invalid snapshot: " ++ Cell.intText count ++ " nodes exceed the supported snapshot size"
  | .missingNode node target =>
    "invalid snapshot: node " ++ node.label ++ " references missing node " ++ target.label
  | .classNotClass node =>
    "invalid snapshot: class of node " ++ node.label ++ " is not a class node"
  | .superclassNotClass node =>
    "invalid snapshot: superclass of node " ++ node.label ++ " is not a class node"
  | .declaredByNotClass node declarer =>
    "invalid snapshot: field of node " ++ node.label ++ " is declared by " ++ declarer.label ++
      ", which is not a class node"
  | .cyclicHierarchy node =>
    "invalid snapshot: superclass chain of node " ++ node.label ++ " is cyclic"
  | .missingRoot root =>
    "invalid snapshot: GC root " ++ root.label ++ " does not exist"
  | .sharedAddress address =>
    "invalid snapshot: duplicate address " ++ Text.address address

structure Record where
  shape : Shape
  classId : NodeId
  address : UInt64
  size : UInt64
  deriving DecidableEq, Repr

namespace Record

def kind (r : Record) : Kind := r.shape.kind

/-- The nodes that node `self` refers to; a class that is its own class does not count that. -/
def references (r : Record) (self : NodeId) : List NodeId :=
  (if r.classId = self then [] else [r.classId]) ++ r.shape.superclass?.toList ++
    r.shape.loader?.toList ++ r.shape.fields.filterMap (·.cell.ref?) ++
    r.shape.elements.filterMap Cell.ref?

end Record

structure Heap where
  records : Array Record
  roots : List NodeId
  dominators : Array (Option Nat)
  retained : Array UInt64
  deriving Repr

namespace Heap

def nodeLimit : Nat := UInt32.size - 1

/--
The address of a first node whose description gives none; each further node lies 16 bytes on.
-/
def baseAddress : UInt64 := 0x10000000

def metaclassName : String := "java.lang.Class"

def metaclass? (nodes : List Node) : Option NodeId :=
  (nodes.findIdx? fun n => n.shape.className? = some metaclassName).map .ofIndex

/-- The node at position `i`, completed; without a class of classes every class is its own. -/
def complete (metaclass : Option NodeId) (i : Nat) (n : Node) : Record where
  shape := n.shape
  classId := n.shape.classId?.getD (metaclass.getD (.ofIndex i))
  address := n.address.getD (baseAddress + UInt64.ofNat (16 * i))
  size := n.size.getD n.shape.defaultSize

def recordsOf (nodes : List Node) : List Record :=
  let metaclass := metaclass? nodes
  nodes.zipIdx.map fun (n, i) => complete metaclass i n

def isClass (records : Array Record) (id : NodeId) : Bool :=
  match records[id.index]? with
  | some r => r.kind = .classNode
  | none => false

def nodeDefect? (records : Array Record) (self : NodeId) (r : Record) : Option Defect :=
  match (r.references self).find? fun target => records.size ≤ target.index with
  | some target => some (.missingNode self target)
  | none =>
    if !isClass records r.classId then some (.classNotClass self)
    else if r.shape.superclass?.any (!isClass records ·) then some (.superclassNotClass self)
    else
      ((r.shape.fields.filterMap (·.declaredBy)).find? (!isClass records ·)).map
        (.declaredByNotClass self ·)

/-- The first address that an earlier node has too. -/
def sharedAddress? : List UInt64 → List UInt64 → Option UInt64
  | _, [] => none
  | earlier, a :: rest => if a ∈ earlier then some a else sharedAddress? (a :: earlier) rest

def parentIndex (records : Array Record) (i : Nat) : Option Nat :=
  records[i]?.bind fun r => r.shape.superclass?.map NodeId.index

def defect? (records : Array Record) (roots : List NodeId) : Option Defect :=
  if nodeLimit ≤ records.size then some (.tooManyNodes records.size)
  else
    records.toList.zipIdx.findSome? (fun (r, i) => nodeDefect? records (.ofIndex i) r)
    <|> (Hierarchy.findCycle (parentIndex records) records.size).map
      (.cyclicHierarchy <| .ofIndex ·)
    <|> (roots.find? fun root => records.size ≤ root.index).map .missingRoot
    <|> (sharedAddress? [] (records.toList.map (·.address))).map .sharedAddress

def graphOf (records : Array Record) (roots : List NodeId) : Graph where
  successors := records.mapIdx fun i r => (r.references (.ofIndex i)).map NodeId.index
  roots := roots.map NodeId.index

def assemble (records : Array Record) (roots : List NodeId) : Heap :=
  let graph := graphOf records roots
  let dominators := graph.immediateDominators
  { records, roots, dominators
    retained := graph.retainedSizes dominators (records.map (·.size)) }

/-- The heap that a snapshot describes, or the first defect of the snapshot. -/
def ofSnapshot (s : Snapshot) : Except Defect Heap :=
  let records := (recordsOf s.nodes).toArray
  match defect? records s.roots with
  | some defect => .error defect
  | none => .ok (assemble records s.roots)

def size (h : Heap) : Nat := h.records.size

def nodeIds (h : Heap) : List NodeId := (List.range h.size).map .ofIndex

def count (h : Heap) (kind : Kind) : Nat := h.records.countP (·.kind = kind)

def classNamed? (h : Heap) (name : String) : Option NodeId :=
  (h.records.findIdx? fun r => r.shape.className? = some name).map .ofIndex

end Heap

end HeapLens
