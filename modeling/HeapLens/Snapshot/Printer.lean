import HeapLens.Heap.Node
import HeapLens.Json.Printer

set_option autoImplicit false

namespace HeapLens

def NodeId.toJson (id : NodeId) : Json := .nat id.word

namespace Cell

def tagged (tag : String) (content : Json) : Json :=
  .object [("t", .text tag), ("v", content)]

def toJson? : Cell → Option Json
  | .null => some (.object [("t", .text "Null")])
  | .bool b => some (tagged "Bool" (.bool b))
  | .byte v => some (tagged "Byte" (.int v.toInt64))
  | .char unit => some (tagged "Char" (.nat unit.toUInt64))
  | .short v => some (tagged "Short" (.int v.toInt64))
  | .int v => some (tagged "Int" (.int v.toInt64))
  | .long v => some (tagged "Long" (.int v))
  | .float x => some (tagged "Float" (.single x))
  | .double x => some (tagged "Double" (.double x))
  | .text s => some (tagged "Text" (.text s))
  | .ref node => some (tagged "Ref" node.toJson)
  | .wide _ => none
  | .unclassified typeName => some (tagged "Opaque" (.text typeName))

end Cell

def Field.toJson? (f : Field) : Option Json :=
  f.cell.toJson?.map fun cell =>
    .object <|
      [("name", .text f.name), ("value", cell)] ++
        f.declaredBy.toList.map fun declarer => ("declared_by", declarer.toJson)

def Field.listToJson? (fields : List Field) : Option Json :=
  (fields.mapM Field.toJson?).map .array

namespace Node

def commonMembers (n : Node) : List (String × Json) :=
  [("address", .optional .nat n.address), ("shallow", .optional .nat n.size)]

def toJson? (n : Node) : Option Json :=
  match n.shape with
  | .classNode name superclass loader statics =>
    (Field.listToJson? statics).map fun statics =>
      .object <|
        [("kind", .text "class"), ("name", .text name),
          ("superclass", .optional NodeId.toJson superclass),
          ("loader", .optional NodeId.toJson loader), ("statics", statics)] ++ n.commonMembers
  | .plain classId fields =>
    (Field.listToJson? fields).map fun fields =>
      .object <|
        [("kind", .text "instance"), ("class", classId.toJson), ("fields", fields)] ++
          n.commonMembers
  | .loader classId fields =>
    (Field.listToJson? fields).map fun fields =>
      .object <|
        [("kind", .text "class_loader"), ("class", classId.toJson), ("fields", fields)] ++
          n.commonMembers
  | .array classId elements =>
    (elements.mapM Cell.toJson?).map fun elements =>
      .object <|
        [("kind", .text "array"), ("class", classId.toJson), ("elements", .array elements)] ++
          n.commonMembers

end Node

namespace Snapshot

def toJson? (s : Snapshot) : Option Json :=
  (s.nodes.mapM Node.toJson?).map fun nodes =>
    .object [("nodes", .array nodes), ("roots", .array (s.roots.map NodeId.toJson))]

def render? (s : Snapshot) : Option String := s.toJson?.map Json.compact

end Snapshot

end HeapLens
