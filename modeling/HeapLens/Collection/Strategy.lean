import HeapLens.Collection.Walk
import HeapLens.Store.Basic

/-!
# How collections lie in the heap

A strategy knows how the collections of some class keep their contents: a list in an array with a
count beside it, a map in chains of entries that hang on an array of buckets, a set in the keys of
a map.
-/

set_option autoImplicit false

namespace HeapLens

inductive Form where
  | sequence
  | map
  deriving DecidableEq, Repr

def Form.name : Form → String
  | .sequence => "sequence"
  | .map => "map"

/-- How one kind of collection is read. -/
structure Strategy where
  name : String
  form : Form
  hasSize : Bool
  size : Store → NodeId → Except Fault UInt32
  elements : Store → NodeId → Except Fault (Walk (Except Fault Cell))
  entries : Store → NodeId → Except Fault (Walk (Except Fault (Cell × Cell)))

/-- The nodes that a walk has passed, each of them once. -/
structure Trace where
  nodes : List NodeId
  nodup : nodes.Nodup

namespace Trace

variable {node : NodeId}

def empty : Trace := ⟨[], .nil⟩

def add (seen : Trace) (node : NodeId) (fresh : node ∉ seen.nodes) : Trace :=
  ⟨node :: seen.nodes, List.nodup_cons.mpr ⟨fresh, seen.nodup⟩⟩

theorem room_add (seen : Trace) (fresh : node ∉ seen.nodes) :
    UInt64.size - (seen.add node fresh).nodes.length < UInt64.size - seen.nodes.length := by
  have few := NodeId.length_le_of_nodup (seen.add node fresh).nodup fun e _ => e.index_lt
  simp only [add, List.length_cons] at few ⊢
  omega

end Trace

namespace Store

def readSize (s : Store) (node : NodeId) (name : String) : Except Fault UInt32 := do
  match ← s.readField node name with
  | none => .error (.corrupt .missingSize)
  | some cell =>
    match cell.int64? with
    | none => .error (.corrupt .badSize)
    | some n =>
      if 0 ≤ n.toInt ∧ n.toInt < UInt32.size then .ok (UInt32.ofNat n.toInt.toNat)
      else .error (.corrupt .badSize)

def readRef (s : Store) (node : NodeId) (name : String) : Except Fault (Option NodeId) := do
  .ok ((← s.readField node name).bind Cell.ref?)

def slot (s : Store) (array : NodeId) (i : Nat) : Except Fault Cell := do
  match ← s.element array (UInt32.ofNat i) with
  | some cell => .ok cell
  | none => .error (.corrupt .missingSlot)

def slotsFrom (s : Store) (array : NodeId) : Nat → Nat → Walk (Except Fault Cell)
  | 0, _ => .done
  | count + 1, i => .item (s.slot array i) fun _ => slotsFrom s array count (i + 1)

def lengthOf (s : Store) (array : Option NodeId) : Except Fault Nat :=
  match array with
  | none => .ok 0
  | some array => do .ok ((← s.arrayLength array).elim 0 UInt32.toNat)

def slots (s : Store) (array : Option NodeId) : Except Fault (Walk (Except Fault Cell)) := do
  let length ← s.lengthOf array
  .ok (s.slotsFrom (array.getD (.ofIndex 0)) length 0)

def firstSlots (s : Store) (array : Option NodeId) (limit : Nat) :
    Except Fault (Walk (Except Fault Cell)) := do
  let length ← s.lengthOf array
  .ok (s.slotsFrom (array.getD (.ofIndex 0)) (min limit length) 0)

def readEntry (s : Store) (node : NodeId) : Except Fault ((Cell × Cell) × Option NodeId) := do
  let key ← s.readField node "key"
  let value ← s.readField node "value"
  let val ← s.readField node "val"
  let next ← s.readRef node "next"
  .ok ((key.getD .null, (value <|> val).getD .null), next)

abbrev Entries := Walk (Except Fault (Cell × Cell))

def cyclicEnd : Entries := .item (.error (.corrupt .cyclicBuckets)) fun _ => .done

/-- The chain from an entry onwards, and then what `after` makes of all entries seen. -/
def chainEntries (s : Store) (after : Trace → Entries) (seen : Trace) (node : NodeId) : Entries :=
  if fresh : node ∉ seen.nodes then
    match s.readEntry node with
    | .error fault => .item (.error fault) fun _ => after (seen.add node fresh)
    | .ok (pair, none) => .item (.ok pair) fun _ => after (seen.add node fresh)
    | .ok (pair, some next) =>
      .item (.ok pair) fun _ => chainEntries s after (seen.add node fresh) next
  else cyclicEnd
termination_by UInt64.size - seen.nodes.length
decreasing_by exact seen.room_add fresh

def bucketsFrom (s : Store) (table : NodeId) : Nat → Nat → Trace → Entries
  | 0, _, _ => .done
  | count + 1, i, seen =>
    match s.slot table i with
    | .error fault => .item (.error fault) fun _ => bucketsFrom s table count (i + 1) seen
    | .ok (.ref first) =>
      s.chainEntries (fun seen => bucketsFrom s table count (i + 1) seen) seen first
    | .ok _ => bucketsFrom s table count (i + 1) seen

def buckets (s : Store) (table : Option NodeId) : Except Fault Entries := do
  let length ← s.lengthOf table
  .ok (s.bucketsFrom (table.getD (.ofIndex 0)) length 0 .empty)

end Store

namespace Strategy

def noElements (_ : Store) (_ : NodeId) : Except Fault (Walk (Except Fault Cell)) :=
  .error (.corrupt .noElements)

def noEntries (_ : Store) (_ : NodeId) : Except Fault Store.Entries :=
  .error (.corrupt .noEntries)

/-- A list in an array, with the number of elements beside it. -/
def countedArray (sizeField arrayField : String) : Strategy where
  name := "sized-list"
  form := .sequence
  hasSize := true
  size s node := s.readSize node sizeField
  elements s node := do
    let size ← s.readSize node sizeField
    let array ← s.readRef node arrayField
    s.firstSlots array size.toNat
  entries := noEntries

def tableEntries (tableField : String) (s : Store) (node : NodeId) :
    Except Fault Store.Entries := do
  let table ← s.readRef node tableField
  s.buckets table

/-- A map in chains of entries that hang on an array of buckets. -/
def hashTable (sizeField tableField : String) : Strategy where
  name := "hash-map"
  form := .map
  hasSize := true
  size s node := s.readSize node sizeField
  elements := noElements
  entries := tableEntries tableField

def backingMap (mapField : String) (s : Store) (node : NodeId) : Except Fault NodeId := do
  match ← s.readRef node mapField with
  | some map => .ok map
  | none => .error (.corrupt .missingMap)

/-- A set in the keys of a map. -/
def keySet (mapField sizeField tableField : String) : Strategy where
  name := "key-set"
  form := .sequence
  hasSize := true
  size s node := do
    let map ← backingMap mapField s node
    s.readSize map sizeField
  elements s node := do
    let map ← backingMap mapField s node
    let entries ← tableEntries tableField s map
    .ok (entries.map fun entry => entry.map Prod.fst)
  entries := noEntries

/--
The nodes from `node` onwards, each of which refers to the next one by a field, `steps` of them. A
node whose field cannot be read is no item: the fault stands in its place and ends the list.
-/
def linksFrom (nextField : String) (s : Store) : Nat → NodeId → Walk (Except Fault Cell)
  | 0, _ => .done
  | steps + 1, node =>
    match s.readRef node nextField with
    | .error fault => .item (.error fault) fun _ => .done
    | .ok none => .item (.ok (.ref node)) fun _ => .done
    | .ok (some next) => .item (.ok (.ref node)) fun _ => linksFrom nextField s steps next

def linkedNodes : Strategy where
  name := "next-chain"
  form := .sequence
  hasSize := false
  size _ _ := .ok 0
  elements s node := .ok (linksFrom "next" s UInt64.size node)
  entries := noEntries

def bare (form : Form) (size : Option UInt32) : Strategy where
  name := "bare"
  form := form
  hasSize := size.isSome
  size _ _ := .ok (size.getD 0)
  elements := noElements
  entries := noEntries

end Strategy

end HeapLens
