import HeapLens.Collection.View
import HeapLens.Query.Attribute
import HeapLens.Query.Function
import HeapLens.Query.Path
import HeapLens.Text.Literal
import HeapLens.Time.Epoch

set_option autoImplicit false

namespace HeapLens

structure Library where
  catalog : Catalog
  epochs : EpochStyle

def unknownNumber : Int64 := -1

namespace QueryValue

def textFor (f : Function) (position : Nat) : QueryValue → Except QueryError (Option String)
  | .text s => .ok (some s)
  | .null => .ok none
  | _ => .error (.argumentType f.name position .text)

def integerFor (f : Function) (position : Nat) : QueryValue → Except QueryError (Option Int64)
  | .integer n => .ok (some n)
  | .null => .ok none
  | _ => .error (.argumentType f.name position .integer)

def nodeNumber (v : QueryValue) : Int64 :=
  match v.handle? with
  | some h => if h.node.index < Text.int64Limit then h.node.word.toInt64 else unknownNumber
  | none => unknownNumber

def askNode {α : Type} (session : Session) (task : Task) (otherwise : α)
    (ask : Handle → Store → Except QueryError α) (v : QueryValue) : Except QueryError α :=
  match v.handle? with
  | none => .ok otherwise
  | some h => do ask h (← task.on h.node (session.storeOf h))

def classOf (session : Session) : QueryValue → Except QueryError QueryValue :=
  askNode session .resolveClass .null fun h store => do
    .ok (.handle (h.sibling (← Task.resolveClass.on h.node (store.classOf h.node))))

def className (session : Session) : QueryValue → Except QueryError String :=
  askNode session .resolveType "" fun h store => do
    let classId ← Task.resolveType.on h.node (store.classOf h.node)
    Task.resolveType.on classId (store.className classId)

def display (session : Session) (v : QueryValue) : Except QueryError QueryValue := do
  .ok ((← v.displayText session).elim .null .text)

def stringContent (session : Session) (limit : Int64) :
    QueryValue → Except QueryError QueryValue :=
  askNode session .readString (.text "") fun h store => do
    let limit := if 0 ≤ limit then some limit.toInt.toNat else none
    .ok ((← Task.readString.on h.node (store.stringContent h.node limit)).elim .null .text)

def describe (session : Session) (v : QueryValue) : String :=
  match v.handle? with
  | some h => "HeapReference: " ++ h.label session
  | none => "Primitive type: " ++ v.render session

def describeAll (values : List QueryValue) : String :=
  "Array, length = " ++ Cell.intText values.length

def arrayLength (session : Session) : QueryValue → Except QueryError Int64 :=
  askNode session .readLength unknownNumber fun h store => do
    .ok ((← Task.readLength.on h.node (store.arrayLength h.node)).elim unknownNumber
      fun length => Int64.ofNat length.toNat)

def element (session : Session) (index : Int64) (v : QueryValue) :
    Except QueryError QueryValue :=
  if 0 ≤ index.toInt ∧ index.toInt < UInt32.size then
    v.askNode session .readSlot .null fun h store => do
      match ← Task.readSlot.on h.node (store.element h.node (UInt32.ofNat index.toInt.toNat)) with
      | some cell => QueryValue.ofCell h cell
      | none => .ok .null
  else .ok .null

def ownSize (session : Session) : QueryValue → Except QueryError Int64 :=
  askNode session .calculateSize unknownNumber fun h store => do
    .ok (sizeInteger (← Task.calculateSize.on h.node (store.size h.node)))

def retainedSize (session : Session) : QueryValue → Except QueryError Int64 :=
  askNode session .calculateRetained unknownNumber fun h store => do
    .ok (sizeInteger (← Task.calculateRetained.on h.node (store.retainedSize h.node)))

def field (session : Session) (name : String) (v : QueryValue) : Except QueryError QueryValue :=
  match v.handle? with
  | none => .ok .null
  | some h =>
    if name.isEmpty then .ok .null
    else
      match h.follow session (.ofName name) with
      | .error (.fieldNotFound ..) => .ok .null
      | answer => answer

/-- The address of a node; addresses above the greatest integer turn negative. -/
def address (session : Session) : QueryValue → Except QueryError Int64 :=
  askNode session .readAddress unknownNumber fun h store => do
    .ok (← Task.readAddress.on h.node (store.address h.node)).toInt64

def dominator (session : Session) : QueryValue → Except QueryError QueryValue :=
  askNode session .obtainDominator .null fun h store => do
    .ok (.ofHandle? ((← Task.obtainDominator.on h.node (store.dominator h.node)).map h.sibling))

end QueryValue

def readInteger (text : String) : Except QueryError Int64 :=
  match Text.readLiteral? text.toList with
  | some n => .ok n
  | none => .error (.invalidInteger text)

namespace Library

def epoch (l : Library) (session : Session) (v : QueryValue) : String :=
  match v.displayText session with
  | .ok (some text) =>
    ((Text.readInt64? text.toList).bind l.epochs.render?).getD l.epochs.wrongType
  | _ => l.epochs.wrongType

def valueAt (l : Library) (session : Session) (key : String) (v : QueryValue) :
    Except QueryError QueryValue :=
  match v.handle? with
  | some h => l.catalog.valueAt session h key
  | none => .ok .null

def sizeOf (l : Library) (session : Session) (v : QueryValue) : Except QueryError Int64 :=
  match v.handle? with
  | some h => l.catalog.sizeOf session h
  | none => .ok Catalog.unknownSize

def unlessNull {α : Type} (argument : Except QueryError (Option α))
    (answer : α → Except QueryError QueryValue) : Except QueryError QueryValue := do
  match ← argument with
  | none => .ok .null
  | some a => answer a

def apply (l : Library) (session : Session) :
    Function → List QueryValue → Except QueryError QueryValue
  | .id, [v] => .ok (.integer v.nodeNumber)
  | .classOf, [v] => v.classOf session
  | .className, [v] => (v.className session).map .text
  | .display, [v] => v.display session
  | .epoch, [v] => .ok (.text (l.epoch session v))
  | .stringContent, [v, limit] =>
    unlessNull (limit.integerFor .stringContent 1) fun limit => v.stringContent session limit
  | .describe, [v] => .ok (.text (v.describe session))
  | .valueAt, [v, key] =>
    unlessNull (key.textFor .valueAt 1) fun key => l.valueAt session key v
  | .size, [v] => (l.sizeOf session v).map .integer
  | .length, [v] => (v.arrayLength session).map .integer
  | .element, [v, index] =>
    unlessNull (index.integerFor .element 1) fun index => v.element session index
  | .ownSize, [v] => (v.ownSize session).map .integer
  | .retainedSize, [v] => (v.retainedSize session).map .integer
  | .field, [v, name] =>
    unlessNull (name.textFor .field 1) fun name => v.field session name
  | .address, [v] => (v.address session).map .integer
  | .readInteger, [v] =>
    unlessNull (v.textFor .readInteger 0) fun text => (HeapLens.readInteger text).map .integer
  | .dominator, [v] => v.dominator session
  | f, arguments => .error (.arity f.name f.parameters.length arguments.length)

def invoke (l : Library) (session : Session) (name : String) (arguments : List QueryValue) :
    Except QueryError QueryValue :=
  match Function.find? name with
  | some f => l.apply session f arguments
  | none => .error (.unknownFunction name)

end Library

end HeapLens
