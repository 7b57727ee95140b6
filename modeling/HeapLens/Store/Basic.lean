import HeapLens.Heap.Basic
import HeapLens.Store.Fault

/-!
# Stores

Queries see a heap only through a store: a set of answers, each of which may be a fault. Besides
the store of a heap there may be stores that fail, or that answer what no heap would.
-/

set_option autoImplicit false

namespace HeapLens

/-- The answers about a captured heap. -/
structure Store where
  kind : NodeId → Except Fault Kind
  objectFields : NodeId → Except Fault (List Field)
  staticFields : NodeId → Except Fault (List Field)
  classOf : NodeId → Except Fault NodeId
  superclass : NodeId → Except Fault (Option NodeId)
  classLoader : NodeId → Except Fault (Option NodeId)
  className : NodeId → Except Fault String
  size : NodeId → Except Fault UInt64
  retainedSize : NodeId → Except Fault UInt64
  dominator : NodeId → Except Fault (Option NodeId)
  address : NodeId → Except Fault UInt64
  arrayLength : NodeId → Except Fault (Option UInt32)
  element : NodeId → UInt32 → Except Fault (Option Cell)
  nodeAt : UInt64 → Option NodeId
  roots : List NodeId
  nodeCount : Nat

namespace Heap

def record (h : Heap) (node : NodeId) : Except Fault Record :=
  match h.records[node.index]? with
  | some r => .ok r
  | none => .error (.missingNode node)

def classRecord (h : Heap) (node : NodeId) : Except Fault Record := do
  let r ← h.record node
  if r.kind = .classNode then .ok r else .error (.corrupt .notClass)

def className (h : Heap) (node : NodeId) : Except Fault String := do
  let r ← h.record node
  match r.shape.className? with
  | some name => .ok name
  | none => .error (.corrupt .notClass)

def lookUp {α : Type} (table : Array α) (node : NodeId) : Except Fault α :=
  match table[node.index]? with
  | some a => .ok a
  | none => .error (.missingNode node)

def store (h : Heap) : Store where
  kind node := (h.record node).map Record.kind
  objectFields node := (h.record node).map fun r =>
    if r.kind = .classNode then [] else r.shape.fields
  staticFields node := (h.classRecord node).map (·.shape.fields)
  classOf node := (h.record node).map Record.classId
  superclass node := (h.classRecord node).map (·.shape.superclass?)
  classLoader node := (h.classRecord node).map (·.shape.loader?)
  className := h.className
  size node := (h.record node).map Record.size
  retainedSize := lookUp h.retained
  dominator node := (lookUp h.dominators node).map (·.map .ofIndex)
  address node := (h.record node).map Record.address
  arrayLength node := (h.record node).map fun r =>
    if r.kind = .array then some (UInt32.ofNat r.shape.elements.length) else none
  element node i := (h.record node).map fun r => r.shape.elements[i.toNat]?
  nodeAt address := (h.records.findIdx? (·.address = address)).map .ofIndex
  roots := h.roots
  nodeCount := h.size

end Heap

namespace Store

def readField (s : Store) (node : NodeId) (name : String) : Except Fault (Option Cell) := do
  let fields ← s.objectFields node
  .ok ((fields.find? (·.name = name)).map (·.cell))

end Store

end HeapLens
