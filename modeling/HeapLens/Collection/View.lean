import HeapLens.Collection.Catalog
import HeapLens.Query.Content

set_option autoImplicit false

namespace HeapLens

structure SequenceView where
  owner : Handle
  store : Store
  strategy : Option Strategy

structure MapView where
  owner : Handle
  store : Store
  strategy : Strategy

def SequenceView.value (v : SequenceView) (item : Except Fault Cell) :
    Except QueryError QueryValue := do
  QueryValue.ofCell v.owner (← Task.readElement.on v.owner.node item)

def SequenceView.items (v : SequenceView) :
    Except QueryError (Walk (Except QueryError QueryValue)) := do
  let cells ← Task.enumerateElements.on v.owner.node <|
    match v.strategy with
    | some strategy => strategy.elements v.store v.owner.node
    | none => v.store.slots (some v.owner.node)
  .ok (cells.map v.value)

def MapView.cells (v : MapView) : Except QueryError Store.Entries :=
  Task.enumerateEntries.on v.owner.node (v.strategy.entries v.store v.owner.node)

def MapView.pair (v : MapView) (item : Except Fault (Cell × Cell)) :
    Except QueryError (QueryValue × QueryValue) := do
  let (key, value) ← Task.readEntry.on v.owner.node item
  let key ← QueryValue.ofCell v.owner key
  let value ← QueryValue.ofCell v.owner value
  .ok (key, value)

def MapView.items (v : MapView) :
    Except QueryError (Walk (Except QueryError (QueryValue × QueryValue))) := do
  .ok ((← v.cells).map v.pair)

namespace Catalog

def unknownSize : Int64 := -1

def strategyFor (c : Catalog) (store : Store) (node : NodeId) :
    Except QueryError (Option Strategy) :=
  Task.findStrategy.on node (c.strategyOf store node)

def sequence? (c : Catalog) (session : Session) (h : Handle) :
    Except QueryError (Option SequenceView) := do
  let store ← Task.openSequence.on h.node (session.storeOf h)
  match ← c.strategyFor store h.node with
  | some strategy =>
    .ok (if strategy.form = .sequence then some ⟨h, store, some strategy⟩ else none)
  | none =>
    let kind ← Task.openSequence.on h.node (store.kind h.node)
    .ok (if kind = .array then some ⟨h, store, none⟩ else none)

def map? (c : Catalog) (session : Session) (h : Handle) :
    Except QueryError (Option MapView) := do
  let store ← Task.openMap.on h.node (session.storeOf h)
  match ← c.strategyFor store h.node with
  | some strategy => .ok (if strategy.form = .map then some ⟨h, store, strategy⟩ else none)
  | none => .ok none

def liveSlots (store : Store) (node : NodeId) : Except QueryError Nat := do
  let slots ← Task.countSlots.on node (store.slots (some node))
  slots.foldM
    (fun live slot => do
      let cell ← Task.countSlots.on node slot
      .ok (if cell = .null then live else live + 1))
    0

def sizeWithout (store : Store) (node : NodeId) : Except QueryError Int64 := do
  let kind ← Task.obtainSize.on node (store.kind node)
  if kind = .array then .ok (Int64.ofNat (← liveSlots store node)) else .ok unknownSize

/-- The number of elements of a node: what its strategy tells, or the live slots of an array. -/
def sizeOf (c : Catalog) (session : Session) (h : Handle) : Except QueryError Int64 := do
  let store ← Task.obtainSize.on h.node (session.storeOf h)
  match ← c.strategyFor store h.node with
  | some strategy =>
    if strategy.hasSize then
      .ok (Int64.ofNat (← Task.obtainSize.on h.node (strategy.size store h.node)).toNat)
    else sizeWithout store h.node
  | none => sizeWithout store h.node

/-- What an entry answers to a search for a key text; keys are compared by their texts. -/
def matchEntry (session : Session) (view : MapView) (key : String)
    (item : Except Fault (Cell × Cell)) : Except QueryError (Option QueryValue) := do
  let (keyCell, valueCell) ← Task.readEntry.on view.owner.node item
  let text ← (← QueryValue.ofCell view.owner keyCell).displayText session
  if text = some key then (QueryValue.ofCell view.owner valueCell).map some else .ok none

/-- The value of the first entry whose key has the given text; nothing if there is none. -/
def valueAt (c : Catalog) (session : Session) (h : Handle) (key : String) :
    Except QueryError QueryValue := do
  match ← c.map? session h with
  | none => .ok .null
  | some view =>
    let answer := (← view.cells).firstAnswer fun item =>
      match matchEntry session view key item with
      | .error e => some (.error e)
      | .ok (some value) => some (.ok value)
      | .ok none => none
    answer.getD (.ok .null)

end Catalog

end HeapLens
