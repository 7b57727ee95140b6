import HeapLens.Heap.Node
import HeapLens.Json.Parts
import HeapLens.Json.Tree

/-!
# Reading snapshots

A cell is a record of a tag `t` and a content `v`. A node is a record whose kind is either a member
`kind` or the first item. A snapshot is a record of `nodes` and `roots`, both of which may be left
out.
-/

set_option autoImplicit false

namespace HeapLens

def NodeId.ofJson? (j : Json) : Option NodeId := j.word?.map NodeId.mk

namespace Cell

/-- Where a cell is written: in a document of its own, or in a node. -/
inductive Place where
  | alone
  | inNode
  deriving DecidableEq, Repr

/-- The names of the tags. In nodes, a tag that leads an array may be given by its place here. -/
def tagNames : List String :=
  ["Null", "Bool", "Byte", "Char", "Short", "Int", "Long", "Float", "Double", "Text", "Ref",
    "Opaque"]

def leadingTag? (place : Place) : Json → Option String
  | .text name => some name
  | .number (.natural n) => if place = .inNode then tagNames[n.toNat]? else none
  | _ => none

/--
The tag that is a member of an object: its name, or an object that gives nothing for the name. In
nodes, an empty object is nothing, too.
-/
def memberTag? (place : Place) : Json → Option String
  | .text name => some name
  | .object [(name, .null)] => some name
  | .object [(name, .object [])] => if place = .inNode then some name else none
  | _ => none

def ofTagged? (tag : String) (content : Option Json) : Option Cell :=
  match tag, content with
  | "Null", none => some .null
  | "Null", some .null => some .null
  | "Bool", some j => j.bool?.map .bool
  | "Byte", some j => (j.intIn? (-128) 127).map fun n => .byte (Int8.ofInt n)
  | "Char", some j => (j.intIn? 0 65535).map fun n => .char (UInt16.ofNat n.toNat)
  | "Short", some j => (j.intIn? (-32768) 32767).map fun n => .short (Int16.ofInt n)
  | "Int", some j => (j.intIn? (-2147483648) 2147483647).map fun n => .int (Int32.ofInt n)
  | "Long", some j =>
    (j.intIn? (-9223372036854775808) 9223372036854775807).map fun n => .long (Int64.ofInt n)
  | "Float", some j => j.single?.map .float
  | "Double", some j => j.double?.map .double
  | "Text", some j => j.text?.map .text
  | "Ref", some j => (NodeId.ofJson? j).map .ref
  | "Opaque", some j => j.text?.map .unclassified
  | _, _ => none

def ofJson? (place : Place) : Json → Option Cell
  | .array [tag, content] =>
    (leadingTag? place tag).bind fun tag => ofTagged? tag (some content)
  | .object members =>
    match Json.parts? ["t", "v"] (.object members) with
    | some [some tag, content] => (memberTag? place tag).bind fun tag => ofTagged? tag content
    | _ => none
  | _ => none

def ofDocument? (d : Document) : Option Cell :=
  (d.pick ["t", "v"]).bind (ofJson? .alone)

end Cell

def Field.ofJson? (j : Json) : Option Field :=
  match j.parts? ["name", "value", "declared_by"] with
  | some [name, value, declaredBy] => do
    let name ← Json.required Json.text? name
    let cell ← Json.required (Cell.ofJson? .inNode) value
    let declaredBy ← Json.optional? NodeId.ofJson? declaredBy
    some { name, cell, declaredBy }
  | _ => none

namespace Node

def fields? (part : Option Json) : Option (List Field) :=
  Json.defaulted [] (Json.list? Field.ofJson?) part

def classOfJson? (j : Json) : Option Node :=
  match j.parts? ["name", "superclass", "loader", "statics", "address", "shallow"] with
  | some [name, superclass, loader, statics, address, size] => do
    let name ← Json.required Json.text? name
    let superclass ← Json.optional? NodeId.ofJson? superclass
    let loader ← Json.optional? NodeId.ofJson? loader
    let statics ← fields? statics
    let address ← Json.optional? Json.word? address
    let size ← Json.optional? Json.word? size
    some ⟨.classNode name superclass loader statics, address, size⟩
  | _ => none

def objectOfJson? (shape : NodeId → List Field → Shape) (j : Json) : Option Node :=
  match j.parts? ["class", "fields", "address", "shallow"] with
  | some [classId, fields, address, size] => do
    let classId ← Json.required NodeId.ofJson? classId
    let fields ← fields? fields
    let address ← Json.optional? Json.word? address
    let size ← Json.optional? Json.word? size
    some ⟨shape classId fields, address, size⟩
  | _ => none

def arrayOfJson? (j : Json) : Option Node :=
  match j.parts? ["class", "elements", "address", "shallow"] with
  | some [classId, elements, address, size] => do
    let classId ← Json.required NodeId.ofJson? classId
    let elements ← Json.defaulted [] (Json.list? (Cell.ofJson? .inNode)) elements
    let address ← Json.optional? Json.word? address
    let size ← Json.optional? Json.word? size
    some ⟨.array classId elements, address, size⟩
  | _ => none

def kindAndRest? : Json → Option (String × Json)
  | .array (.text kind :: rest) => some (kind, .array rest)
  | .object members =>
    match members.filter (·.1 = "kind") with
    | [(_, .text kind)] => some (kind, .object (members.filter (·.1 ≠ "kind")))
    | _ => none
  | _ => none

def ofJson? (j : Json) : Option Node :=
  match kindAndRest? j with
  | some ("class", rest) => classOfJson? rest
  | some ("instance", rest) => objectOfJson? .plain rest
  | some ("class_loader", rest) => objectOfJson? .loader rest
  | some ("array", rest) => arrayOfJson? rest
  | _ => none

end Node

namespace Snapshot

def ofJson? (j : Json) : Option Snapshot :=
  match j.parts? ["nodes", "roots"] with
  | some [nodes, roots] => do
    let nodes ← Json.defaulted [] (Json.list? Node.ofJson?) nodes
    let roots ← Json.defaulted [] (Json.list? NodeId.ofJson?) roots
    some { nodes, roots }
  | _ => none

def ofDocument? (d : Document) : Option Snapshot :=
  (d.pick ["nodes", "roots"]).bind ofJson?

def read? (text : String) : Option Snapshot :=
  (Document.read? text).bind ofDocument?

end Snapshot

end HeapLens
