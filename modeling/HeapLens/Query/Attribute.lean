import HeapLens.Query.Value
import HeapLens.Text.Caseless

set_option autoImplicit false

namespace HeapLens

def attributeSign : Char := '@'

inductive Attribute where
  | size
  | retainedSize
  | className
  | classOf
  | classLoader
  | superclass
  deriving DecidableEq, Repr

namespace Attribute

def all : List Attribute :=
  [.size, .retainedSize, .className, .classOf, .classLoader, .superclass]

def name : Attribute → String
  | .size => "@shallow"
  | .retainedSize => "@retained"
  | .className => "@className"
  | .classOf => "@class"
  | .classLoader => "@classLoader"
  | .superclass => "@super"

def isClassOnly : Attribute → Bool
  | .classLoader => true
  | .superclass => true
  | _ => false

def appliesTo (a : Attribute) (kind : Kind) : Bool := !a.isClassOnly || kind = .classNode

def find? (name : String) : Option Attribute :=
  all.find? fun a => Text.sameName a.name name

def findFor? (name : String) (kind : Kind) : Option Attribute :=
  (find? name).filter (·.appliesTo kind)

end Attribute

def sizeInteger (bytes : UInt64) : Int64 :=
  if bytes.toNat < Text.int64Limit then bytes.toInt64 else Int64.maxValue

def Handle.attribute (session : Session) (h : Handle) (a : Attribute) :
    Except QueryError QueryValue :=
  match a with
  | .size => do
    let store ← Task.computeSize.on h.node (session.storeOf h)
    .ok (.integer (sizeInteger (← Task.computeSize.on h.node (store.size h.node))))
  | .retainedSize => do
    let store ← Task.computeRetained.on h.node (session.storeOf h)
    .ok (.integer (sizeInteger (← Task.computeRetained.on h.node (store.retainedSize h.node))))
  | .className => do
    let store ← Task.resolveClassName.on h.node (session.storeOf h)
    let classId ← Task.resolveClassName.on h.node (store.classOf h.node)
    .ok (.text (← Task.resolveClassName.on classId (store.className classId)))
  | .classOf => do
    let store ← Task.resolveClass.on h.node (session.storeOf h)
    .ok (.handle (h.sibling (← Task.resolveClass.on h.node (store.classOf h.node))))
  | .classLoader => do
    let store ← Task.resolveLoader.on h.node (session.storeOf h)
    let loader ← Task.resolveLoader.on h.node (store.classLoader h.node)
    .ok (.ofHandle? (loader.map h.sibling))
  | .superclass => do
    let store ← Task.resolveSuperclass.on h.node (session.storeOf h)
    let parent ← Task.resolveSuperclass.on h.node (store.superclass h.node)
    .ok (.ofHandle? (parent.map h.sibling))

end HeapLens
