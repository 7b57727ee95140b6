import HeapLens.Query.Error
import HeapLens.Text.Caseless

set_option autoImplicit false

namespace HeapLens

inductive Function where
  | id
  | classOf
  | className
  | display
  | epoch
  | stringContent
  | describe
  | valueAt
  | size
  | length
  | element
  | ownSize
  | retainedSize
  | field
  | address
  | readInteger
  | dominator
  deriving DecidableEq, Repr

structure Signature where
  name : String
  parameters : List ValueType
  result : ValueType
  deriving DecidableEq, Repr

namespace Function

def all : List Function :=
  [.id, .classOf, .className, .display, .epoch, .stringContent, .describe, .valueAt, .size,
    .length, .element, .ownSize, .retainedSize, .field, .address, .readInteger, .dominator]

def signature : Function → Signature
  | .id => ⟨"getId", [.any], .integer⟩
  | .classOf => ⟨"getClass", [.any], .handle⟩
  | .className => ⟨"getType", [.any], .text⟩
  | .display => ⟨"toString", [.any], .text⟩
  | .epoch => ⟨"convertEpoch", [.any], .text⟩
  | .stringContent => ⟨"getStringContent", [.any, .integer], .text⟩
  | .describe => ⟨"introspect", [.any], .text⟩
  | .valueAt => ⟨"getByKey", [.any, .text], .any⟩
  | .size => ⟨"getSize", [.any], .integer⟩
  | .length => ⟨"length", [.any], .integer⟩
  | .element => ⟨"getElement", [.any, .integer], .any⟩
  | .ownSize => ⟨"shallowSize", [.any], .integer⟩
  | .retainedSize => ⟨"retainedSize", [.any], .integer⟩
  | .field => ⟨"getField", [.any, .text], .any⟩
  | .address => ⟨"getAddress", [.any], .integer⟩
  | .readInteger => ⟨"toLong", [.text], .integer⟩
  | .dominator => ⟨"getDominator", [.any], .handle⟩

def name (f : Function) : String := f.signature.name

def parameters (f : Function) : List ValueType := f.signature.parameters

def result (f : Function) : ValueType := f.signature.result

def find? (name : String) : Option Function :=
  all.find? fun f => Text.sameName f.name name

theorem mem_all (f : Function) : f ∈ all := by
  cases f <;> decide

end Function

end HeapLens
