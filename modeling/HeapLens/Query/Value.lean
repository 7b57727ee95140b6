import HeapLens.Json.Basic
import HeapLens.Query.Error
import HeapLens.Store.Basic

/-!
# Values of queries

Queries hand out values of six types. A node travels as a handle, which names a store of the session
and a node in it. A session is the list of stores opened so far; a closed store leaves an empty
place, so a handle into it finds nothing any more.
-/

set_option autoImplicit false

namespace HeapLens

/-- A node of a store of the session. -/
structure Handle where
  store : Nat
  node : NodeId
  deriving DecidableEq, Repr

/-- What a query handles. -/
inductive QueryValue where
  | null
  | boolean (b : Bool)
  | integer (n : Int64)
  | real (x : Number.Binary64)
  | text (s : String)
  | handle (h : Handle)
  deriving DecidableEq, Repr

/-- The stores that have been opened, in order; a closed one is gone. -/
structure Session where
  stores : List (Option Store)

namespace Session

def empty : Session := ⟨[]⟩

def opening (s : Session) (store : Store) : Session := ⟨s.stores ++ [some store]⟩

def closing (s : Session) (place : Nat) : Session := ⟨s.stores.set place none⟩

def storeAt (s : Session) (place : Nat) : Except Fault Store :=
  match s.stores[place]? with
  | some (some store) => .ok store
  | _ => .error .closed

def storeOf (s : Session) (h : Handle) : Except Fault Store := s.storeAt h.store

def isOpen (s : Session) (h : Handle) : Bool := (s.storeOf h).isOk

end Session

namespace Handle

def sibling (h : Handle) (node : NodeId) : Handle := { h with node }

def checked (session : Session) (h : Handle) : Except Fault Handle := do
  let store ← session.storeOf h
  let _ ← store.kind h.node
  .ok h

/-- Handles are equal if they name one node of one store that is open. -/
def same (session : Session) (a b : Handle) : Bool := a == b && session.isOpen a

def className (store : Store) (node : NodeId) : Except Fault String := do
  store.className (← store.classOf node)

def label (session : Session) (h : Handle) : String :=
  match session.storeOf h with
  | .error _ => "<closed>" ++ h.node.label
  | .ok store =>
    match className store h.node, store.address h.node with
    | .ok name, .ok address => name ++ "@" ++ Text.address address
    | _, _ => "<unknown>" ++ h.node.label

def diagnostic (h : Handle) : String := "GraphHandle(" ++ h.node.label ++ ")"

def address? (session : Session) (h : Handle) : Option String :=
  match session.storeOf h with
  | .ok store => (store.address h.node).toOption.map Text.address
  | .error _ => none

def className? (session : Session) (h : Handle) : Option String :=
  match session.storeOf h with
  | .ok store => (className store h.node).toOption
  | .error _ => none

def toJson (session : Session) (h : Handle) : Json :=
  .object
    [("node", .nat h.node.word), ("address", .optional .text (h.address? session)),
      ("class", .optional .text (h.className? session))]

end Handle

namespace QueryValue

def ofHandle? (h : Option Handle) : QueryValue := h.elim .null .handle

def isNull : QueryValue → Bool
  | .null => true
  | _ => false

def handle? : QueryValue → Option Handle
  | .handle h => some h
  | _ => none

def integer? : QueryValue → Option Int64
  | .integer n => some n
  | _ => none

def text? : QueryValue → Option String
  | .text s => some s
  | _ => none

def typeName : QueryValue → String
  | .null => "null"
  | .boolean _ => "boolean"
  | .integer _ => "integer"
  | .real _ => "real"
  | .text _ => "text"
  | .handle _ => "handle"

def render (session : Session) : QueryValue → String
  | .null => "null"
  | .boolean b => Cell.boolText b
  | .integer n => Cell.intText n.toInt
  | .real x => x.render .diagnostic
  | .text s => s
  | .handle h => h.label session

def same (session : Session) : QueryValue → QueryValue → Bool
  | .null, .null => true
  | .boolean a, .boolean b => a == b
  | .integer a, .integer b => a == b
  | .real a, .real b => a.same b
  | .text a, .text b => a == b
  | .handle a, .handle b => a.same session b
  | _, _ => false

def tagged (tag : String) (content : Json) : Json := .object [("t", .text tag), ("v", content)]

def toJson (session : Session) : QueryValue → Json
  | .null => .object [("t", .text "Null")]
  | .boolean b => tagged "Boolean" (.bool b)
  | .integer n => tagged "Integer" (.int n)
  | .real x => tagged "Real" (.double x)
  | .text s => tagged "Text" (.text s)
  | .handle h => tagged "Handle" (h.toJson session)

/-- The value of a cell that belongs to a node of the owner's store. -/
def ofCell (owner : Handle) : Cell → Except QueryError QueryValue
  | .null => .ok .null
  | .bool b => .ok (.boolean b)
  | .byte v => .ok (.integer v.toInt64)
  | .char unit => .ok (.text (String.ofList [Text.Utf16.single unit]))
  | .short v => .ok (.integer v.toInt64)
  | .int v => .ok (.integer v.toInt64)
  | .long v => .ok (.integer v)
  | .float x => .ok (.real x.widen)
  | .double x => .ok (.real x)
  | .text s => .ok (.text s)
  | .ref node => .ok (.handle (owner.sibling node))
  | .wide v => .error (.unsupportedType (Cell.wide v).typeName)
  | .unclassified typeName => .error (.unsupportedType typeName)

end QueryValue

end HeapLens
