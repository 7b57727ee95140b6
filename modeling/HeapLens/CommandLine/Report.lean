import HeapLens.Collection.Catalog
import HeapLens.Json.Printer
import HeapLens.Query.Function
import HeapLens.Query.Path

set_option autoImplicit false

namespace HeapLens.CommandLine

inductive Contents where
  | sequence (items : List QueryValue)
  | map (entries : List (QueryValue × QueryValue))
  deriving Repr

inductive Report where
  | summary (snapshot : String) (heap : Heap)
  | call (function : String) (result : QueryValue)
  | follow (node : Handle) (path : Path) (value : QueryValue)
  | elements (node : Handle) (size : Int64) (contents : Contents)
  | functions
  deriving Repr

namespace Contents

def form : Contents → Form
  | .sequence _ => .sequence
  | .map _ => .map

def toJson (session : Session) : Contents → Json
  | .sequence items => .array (items.map (·.toJson session))
  | .map entries =>
    .array <| entries.map fun (key, value) =>
      .object [("key", key.toJson session), ("value", value.toJson session)]

end Contents

def countJson (n : Nat) : Json := .nat (UInt64.ofNat n)

def signatureJson (s : Signature) : Json :=
  .object
    [("name", .text s.name), ("params", .array (s.parameters.map fun p => .text p.name)),
      ("returns", .text s.result.name)]

def signatureLine (s : Signature) : String :=
  s.name ++ "(" ++ ", ".intercalate (s.parameters.map ValueType.name) ++ ") -> " ++ s.result.name

def titleLine (title : String) : String := "▸ " ++ title

def block (title : String) (rows : List (String × String)) : List String :=
  let width := (rows.map fun (label, _) => label.length).foldl max 0
  titleLine title :: rows.map fun (label, text) =>
    "  " ++ String.ofList (Text.padLeft width ' ' label.toList) ++ ": " ++ text

def listing (title : String) (items : List String) : List String :=
  titleLine title :: if items.isEmpty then ["  (empty)"] else items.map ("  - " ++ ·)

namespace Report

def toJson (session : Session) : Report → Json
  | .summary snapshot heap =>
    .object
      [("path", .text snapshot), ("nodes", countJson heap.size),
        ("roots", countJson heap.roots.length), ("classes", countJson (heap.count .classNode)),
        ("instances", countJson (heap.count .plain)), ("arrays", countJson (heap.count .array)),
        ("class_loaders", countJson (heap.count .loader)),
        ("extractors", countJson Catalog.builtin.size)]
  | .call function result =>
    .object [("function", .text function), ("result", result.toJson session)]
  | .follow node path value =>
    .object
      [("node", node.toJson session), ("path", .text path.render), ("value", value.toJson session)]
  | .elements node size contents =>
    .object
      [("node", node.toJson session), ("size", .int size), ("shape", .text contents.form.name),
        ("items", contents.toJson session)]
  | .functions => .array (Function.all.map fun f => signatureJson f.signature)

def countText (n : Nat) : String := Cell.intText n

def lines (session : Session) : Report → List String
  | .summary snapshot heap =>
    block "Snapshot"
      [("path", snapshot), ("nodes", countText heap.size),
        ("roots", countText heap.roots.length)] ++
    block "Kinds"
      [("classes", countText (heap.count .classNode)),
        ("instances", countText (heap.count .plain)), ("arrays", countText (heap.count .array)),
        ("class loaders", countText (heap.count .loader))] ++
    block "Extractors" [("registered", countText Catalog.builtin.size)]
  | .call _ result => [result.render session]
  | .follow node path value =>
    block "Path"
      [("node", node.label session), ("path", path.render), ("value", value.render session)]
  | .elements node size contents =>
    block "Collection" [("node", node.label session), ("size", Cell.intText size.toInt)] ++
    match contents with
    | .sequence items => listing "Elements" (items.map (·.render session))
    | .map entries =>
      listing "Entries" <| entries.map fun (key, value) =>
        key.render session ++ " => " ++ value.render session
  | .functions => listing "Functions" (Function.all.map fun f => signatureLine f.signature)

def text (session : Session) (r : Report) : String :=
  String.join ((r.lines session).map (· ++ "\n"))

def json (session : Session) (r : Report) : String := (r.toJson session).pretty ++ "\n"

end Report

end HeapLens.CommandLine
