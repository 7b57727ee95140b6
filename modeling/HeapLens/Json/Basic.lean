import HeapLens.Number.Layout

set_option autoImplicit false

namespace HeapLens

/-- A number in a JSON value. -/
inductive Json.Numeric where
  | natural (n : UInt64)
  | negative (n : Int64)
  | double (x : Number.Binary64)
  | single (x : Number.Binary32)
  deriving DecidableEq, Repr

inductive Json where
  | null
  | bool (b : Bool)
  | number (n : Json.Numeric)
  | text (s : String)
  | array (items : List Json)
  | object (members : List (String × Json))
  deriving Repr

namespace Json

def nat (n : UInt64) : Json := .number (.natural n)

def int (n : Int64) : Json :=
  if n < 0 then .number (.negative n) else .number (.natural n.toUInt64)

def double (x : Number.Binary64) : Json :=
  if x.value.isFinite then .number (.double x) else .null

def single (x : Number.Binary32) : Json :=
  if x.value.isFinite then .number (.single x) else .null

def optional {α : Type} (write : α → Json) : Option α → Json
  | none => .null
  | some a => write a

end Json

inductive Document where
  | null
  | bool (b : Bool)
  | number (n : Option Json.Numeric)
  | text (s : Option String)
  | array (items : List Document)
  | object (members : List (Option String × Document))
  deriving Repr

namespace Document

mutual

/-- The value of the document if all of it is readable and its nesting is at most `depth`. -/
def value? (depth : Nat) : Document → Option Json
  | .null => some .null
  | .bool b => some (.bool b)
  | .number n => n.map .number
  | .text s => s.map .text
  | .array items =>
    match depth with
    | 0 => none
    | depth + 1 => (values? depth items).map .array
  | .object members =>
    match depth with
    | 0 => none
    | depth + 1 => (members? depth members).map .object

def values? (depth : Nat) : List Document → Option (List Json)
  | [] => some []
  | item :: rest =>
    match value? depth item, values? depth rest with
    | some item, some rest => some (item :: rest)
    | _, _ => none

def members? (depth : Nat) : List (Option String × Document) → Option (List (String × Json))
  | [] => some []
  | (name, item) :: rest =>
    match name, value? depth item, members? depth rest with
    | some name, some item, some rest => some ((name, item) :: rest)
    | _, _, _ => none

end

end Document

end HeapLens
