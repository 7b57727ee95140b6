import HeapLens.Query.Attribute
import HeapLens.Store.ClassChain

/-!
# Field paths

A path is a list of names to follow from a node. A name that begins with `@` stands for an
attribute if the node has it, and otherwise for a field like any other name. Fields are looked up
level by level along the class chain: on each level first the fields of the object that the class
declares, then the statics of the class; fields declared elsewhere come last.
-/

set_option autoImplicit false

namespace HeapLens

inductive Step where
  | field (name : String)
  | attribute (name : String)
  deriving DecidableEq, Repr

namespace Step

def ofName (name : String) : Step :=
  if name.toList.head? = some attributeSign then .attribute name else .field name

def name : Step → String
  | .field name => name
  | .attribute name => name

end Step

structure Path where
  steps : List Step
  deriving DecidableEq, Repr

def Path.single (name : String) : Path := ⟨[.ofName name]⟩

def Path.render (p : Path) : String :=
  "this['" ++ ".".intercalate (p.steps.map Step.name) ++ "']"

namespace Store

/--
The first field of a name that the class `classId` declares; `own` declares the untagged ones.
-/
def declaredField? (fields : List Field) (own classId : NodeId) (name : String) : Option Field :=
  fields.find? fun f => f.name = name && f.declaredBy.getD own = classId

/--
The cell of a name along a class chain: the field that the class declares, or the static of the
class, on the first level that has one of them.
-/
def findAlong (s : Store) (fields : List Field) (own : NodeId) (name : String) :
    List (Except Fault NodeId) → Except QueryError (Option Cell)
  | [] => .ok none
  | level :: rest => do
    let classId ← Task.walkHierarchy.on own level
    match declaredField? fields own classId name with
    | some field => .ok (some field.cell)
    | none =>
      let statics ← Task.readStatics.on classId (s.staticFields classId)
      match statics.find? (·.name = name) with
      | some field => .ok (some field.cell)
      | none => findAlong s fields own name rest

def ownClass (s : Store) (node : NodeId) : Except Fault NodeId := do
  if (← s.kind node) = .classNode then .ok node else s.classOf node

def findCell (s : Store) (node : NodeId) (name : String) : Except QueryError Cell := do
  let fields ← Task.readObjectFields.on node (s.objectFields node)
  let own ← Task.navigate.on node (s.ownClass node)
  match ← s.findAlong fields own name (s.classChain own) with
  | some cell => .ok cell
  | none =>
    match fields.find? (·.name = name) with
    | some field => .ok field.cell
    | none =>
      let className ← Task.resolveClassName.on own (s.className own)
      .error (.fieldNotFound name className)

end Store

namespace Handle

def followField (h : Handle) (store : Store) (name : String) : Except QueryError QueryValue := do
  QueryValue.ofCell h (← store.findCell h.node name)

def follow (session : Session) (h : Handle) (step : Step) : Except QueryError QueryValue := do
  let store ← Task.navigate.on h.node (session.storeOf h)
  match step with
  | .field name => h.followField store name
  | .attribute name =>
    let kind ← Task.navigate.on h.node (store.kind h.node)
    match Attribute.findFor? name kind with
    | some a => h.attribute session a
    | none => h.followField store name

end Handle

namespace Path

/-- Follows steps from a value: nothing leads to nothing, and only nodes lead on. -/
def followAll (session : Session) : List Step → QueryValue → Except QueryError QueryValue
  | [], value => .ok value
  | _ :: _, .null => .ok .null
  | step :: rest, .handle h => do followAll session rest (← h.follow session step)
  | step :: _, value => .error (.notNavigable step.name value.typeName)

def resolve (session : Session) (p : Path) (start : Handle) : Except QueryError QueryValue :=
  followAll session p.steps (.handle start)

end Path

end HeapLens
