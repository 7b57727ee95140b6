import HeapLens.Heap.Basic

set_option autoImplicit false

namespace HeapLens

structure Draft where
  nodes : Array Node
  roots : Array NodeId
  deriving DecidableEq, Repr

namespace Draft

def empty : Draft := ⟨#[], #[]⟩

def nextId (d : Draft) : NodeId := .ofIndex d.nodes.size

def push (d : Draft) (node : Node) : Draft := { d with nodes := d.nodes.push node }

def pushShape (d : Draft) (shape : Shape) : Draft := d.push ⟨shape, none, none⟩

def addClass (d : Draft) (name : String) (superclass : Option NodeId) (statics : List Field) :
    Draft :=
  d.pushShape (.classNode name superclass none statics)

def addClassWithLoader (d : Draft) (name : String) (superclass : Option NodeId)
    (loader : NodeId) : Draft :=
  d.pushShape (.classNode name superclass (some loader) [])

def addObject (d : Draft) (classId : NodeId) (fields : List Field) : Draft :=
  d.pushShape (.plain classId fields)

def addLoader (d : Draft) (classId : NodeId) : Draft :=
  d.pushShape (.loader classId [])

def addArray (d : Draft) (classId : NodeId) (elements : List Cell) : Draft :=
  d.pushShape (.array classId elements)

/-- Sets the size of a node that has been added; any other number is ignored. -/
def setSize (d : Draft) (node : NodeId) (bytes : UInt64) : Draft :=
  { d with nodes := d.nodes.modify node.index fun n => { n with size := some bytes } }

def addRoot (d : Draft) (node : NodeId) : Draft := { d with roots := d.roots.push node }

def snapshot (d : Draft) : Snapshot := ⟨d.nodes.toList, d.roots.toList⟩

def build (d : Draft) : Except Defect Heap := Heap.ofSnapshot d.snapshot

inductive Call where
  | push (node : Node)
  | addClass (name : String) (superclass : Option NodeId) (statics : List Field)
  | addClassWithLoader (name : String) (superclass : Option NodeId) (loader : NodeId)
  | addObject (classId : NodeId) (fields : List Field)
  | addLoader (classId : NodeId)
  | addArray (classId : NodeId) (elements : List Cell)
  | setSize (node : NodeId) (bytes : UInt64)
  | addRoot (node : NodeId)
  | nextId
  deriving DecidableEq, Repr

def perform (d : Draft) : Call → Draft × Option NodeId
  | .push node => (d.push node, some d.nextId)
  | .addClass name superclass statics => (d.addClass name superclass statics, some d.nextId)
  | .addClassWithLoader name superclass loader =>
    (d.addClassWithLoader name superclass loader, some d.nextId)
  | .addObject classId fields => (d.addObject classId fields, some d.nextId)
  | .addLoader classId => (d.addLoader classId, some d.nextId)
  | .addArray classId elements => (d.addArray classId elements, some d.nextId)
  | .setSize node bytes => (d.setSize node bytes, none)
  | .addRoot node => (d.addRoot node, none)
  | .nextId => (d, some d.nextId)

def performAll (d : Draft) (calls : List Call) : Draft :=
  calls.foldl (fun d call => (d.perform call).1) d

end Draft

end HeapLens
