import HeapLens.Query.Value

set_option autoImplicit false

namespace HeapLens

def stringClasses : List String :=
  ["java.lang.String", "java.lang.StringBuilder", "java.lang.StringBuffer"]

def boxClasses : List String :=
  ["java.lang.Boolean", "java.lang.Byte", "java.lang.Character", "java.lang.Short",
    "java.lang.Integer", "java.lang.Long", "java.lang.Float", "java.lang.Double"]

/--
The code units in the cells of an array. Bytes are units by themselves, or two of them make a unit
with the low byte first; `low` is a byte that waits for the second one. Other cells are passed over.
-/
def cellUnits (isWide : Bool) : Option UInt8 → List Cell → List UInt16
  | _, [] => []
  | low, .char unit :: rest => unit :: cellUnits isWide low rest
  | low, .byte v :: rest =>
    if isWide then
      match low with
      | none => cellUnits isWide (some v.toUInt8) rest
      | some low => Text.Utf16.ofBytes low v.toUInt8 :: cellUnits isWide none rest
    else v.toUInt8.toUInt16 :: cellUnits isWide low rest
  | low, _ :: rest => cellUnits isWide low rest

def limited (limit : Option Nat) (text : List Char) : String :=
  String.ofList (limit.elim text text.take)

namespace Store

def arrayCells (s : Store) (array : NodeId) (length : Nat) : Except Fault (List Cell) := do
  let cells ← (List.range length).mapM fun i => s.element array (UInt32.ofNat i)
  .ok (cells.filterMap id)

def readInt64 (s : Store) (node : NodeId) (name : String) : Except Fault (Option Int64) := do
  .ok ((← s.readField node name).bind Cell.int64?)

def stringUnits (s : Store) (node array : NodeId) : Except Fault (List UInt16) := do
  let length ← s.arrayLength array
  let coder ← s.readInt64 node "coder"
  let cells ← s.arrayCells array (length.elim 0 UInt32.toNat)
  let units := cellUnits (coder.getD 0 != 0) none cells
  match ← s.readInt64 node "count" with
  | some count => .ok (units.take count.toInt.toNat)
  | none => .ok units

def stringContent (s : Store) (node : NodeId) (limit : Option Nat) :
    Except Fault (Option String) := do
  let name ← s.className (← s.classOf node)
  if name ∉ stringClasses then .ok none
  else
    match ← s.readField node "value" with
    | some (.text text) => .ok (some (limited limit text.toList))
    | some (.ref array) =>
      let units ← s.stringUnits node array
      .ok (some (limited limit (Text.Utf16.decode units)))
    | _ => .ok (some "")

def boxContent (s : Store) (node : NodeId) : Except Fault (Option Cell) := do
  let name ← s.className (← s.classOf node)
  if name ∈ boxClasses then s.readField node "value" else .ok none

end Store

/-- The text of a node. -/
def Handle.text (session : Session) (h : Handle) : Except QueryError String := do
  let store ← Task.render.on h.node (session.storeOf h)
  match ← Task.render.on h.node (store.stringContent h.node none) with
  | some text => .ok text
  | none =>
    match ← Task.render.on h.node (store.boxContent h.node) with
    | some cell => .ok cell.render
    | none => .ok (h.label session)

/-- The text of a value; nothing has none. -/
def QueryValue.displayText (session : Session) : QueryValue → Except QueryError (Option String)
  | .null => .ok none
  | .handle h => (h.text session).map some
  | value => .ok (some (value.render session))

end HeapLens
