import HeapLens.Json.Token

/-!
# From tokens to documents

The tokens are taken one after the other. The arrays and objects that are still open lie on a list
of frames, the innermost first, so documents of any depth are built in a single pass.
-/

set_option autoImplicit false

namespace HeapLens.Json

/-- An array or object that is still open; what it holds so far stands last one first. -/
inductive Frame where
  | array (items : List Document)
  | object (members : List (Option String × Document))
  | member (members : List (Option String × Document)) (name : Option String)
  deriving Repr

inductive Stage where
  | value
  | firstItem
  | firstName
  | name
  | colon
  | next
  | done (d : Document)
  deriving Repr

structure Builder where
  stage : Stage
  frames : List Frame
  deriving Repr

namespace Builder

def start : Builder := ⟨.value, []⟩

/-- Puts a complete value where the innermost frame wants it. -/
def deliver (d : Document) : List Frame → Option Builder
  | [] => some ⟨.done d, []⟩
  | .array items :: frames => some ⟨.next, .array (d :: items) :: frames⟩
  | .member members name :: frames => some ⟨.next, .object ((name, d) :: members) :: frames⟩
  | .object _ :: _ => none

def value (frames : List Frame) : Token → Option Builder
  | .null => deliver .null frames
  | .bool b => deliver (.bool b) frames
  | .number n => deliver (.number n) frames
  | .text s => deliver (.text s) frames
  | .openArray => some ⟨.firstItem, .array [] :: frames⟩
  | .openObject => some ⟨.firstName, .object [] :: frames⟩
  | _ => none

def name : List Frame → Token → Option Builder
  | .object members :: frames, .text s => some ⟨.colon, .member members s :: frames⟩
  | _, _ => none

def next : List Frame → Token → Option Builder
  | .array items :: frames, .comma => some ⟨.value, .array items :: frames⟩
  | .array items :: frames, .closeArray => deliver (.array items.reverse) frames
  | .object members :: frames, .comma => some ⟨.name, .object members :: frames⟩
  | .object members :: frames, .closeObject => deliver (.object members.reverse) frames
  | _, _ => none

def step (b : Builder) (token : Token) : Option Builder :=
  match b.stage with
  | .value => value b.frames token
  | .firstItem => if token = .closeArray then next b.frames token else value b.frames token
  | .firstName => if token = .closeObject then next b.frames token else name b.frames token
  | .name => name b.frames token
  | .colon => if token = .colon then some ⟨.value, b.frames⟩ else none
  | .next => next b.frames token
  | .done _ => none

def finish (b : Builder) : Option Document :=
  match b.stage with
  | .done d => some d
  | _ => none

end Builder

end HeapLens.Json

namespace HeapLens.Document

def ofTokens? (tokens : List Json.Token) : Option Document :=
  (tokens.foldlM Json.Builder.step Json.Builder.start).bind Json.Builder.finish

def read? (text : String) : Option Document :=
  (Json.Token.scan text.toList).bind ofTokens?

end HeapLens.Document
