import HeapLens.Heap.Basic
import HeapLens.Snapshot.Reader

set_option autoImplicit false

namespace HeapLens

inductive FileContent where
  | absent
  | unreadable
  | bytes (content : ByteArray)

def FileContent.text? : FileContent → Option String
  | .bytes content => String.fromUTF8? content
  | _ => none

inductive LoadError where
  | unreadable
  | malformed
  | defective (defect : Defect)
  deriving DecidableEq, Repr

def Heap.load (file : FileContent) : Except LoadError Heap :=
  match file.text? with
  | none => .error .unreadable
  | some text =>
    match Snapshot.read? text with
    | none => .error .malformed
    | some snapshot =>
      match Heap.ofSnapshot snapshot with
      | .error defect => .error (.defective defect)
      | .ok heap => .ok heap

end HeapLens
