import HeapLens.Json.Basic

set_option autoImplicit false

namespace HeapLens

namespace Document

def depthLimit : Nat := 127

/-- The members of the given names, which alone have to be readable. -/
def pickMembers (names : List String) (depth : Nat) :
    List (Option String × Document) → Option (List (String × Json))
  | [] => some []
  | (name, item) :: rest =>
    match name with
    | none => none
    | some name =>
      if name ∈ names then
        match item.value? depth, pickMembers names depth rest with
        | some item, some rest => some ((name, item) :: rest)
        | _, _ => none
      else pickMembers names depth rest

def pick (names : List String) : Document → Option Json
  | .object members => (pickMembers names (depthLimit - 1) members).map .object
  | d => d.value? depthLimit

end Document

namespace Json

def parts? (names : List String) : Json → Option (List (Option Json))
  | .object members =>
    names.mapM fun name =>
      match members.filter (·.1 = name) with
      | [] => some none
      | [(_, item)] => some (some item)
      | _ => none
  | .array items =>
    if items.length ≤ names.length then
      some (items.map some ++ List.replicate (names.length - items.length) none)
    else none
  | _ => none

def required {α : Type} (read : Json → Option α) (part : Option Json) : Option α :=
  part.bind read

def defaulted {α : Type} (default : α) (read : Json → Option α) : Option Json → Option α
  | none => some default
  | some item => read item

def nullable {α : Type} (read : Json → Option α) : Json → Option (Option α)
  | .null => some none
  | item => (read item).map some

def optional? {α : Type} (read : Json → Option α) (part : Option Json) : Option (Option α) :=
  defaulted none (nullable read) part

def list? {α : Type} (read : Json → Option α) : Json → Option (List α)
  | .array items => items.mapM read
  | _ => none

def text? : Json → Option String
  | .text s => some s
  | _ => none

def bool? : Json → Option Bool
  | .bool b => some b
  | _ => none

def int? : Json → Option Int
  | .number (.natural n) => some n.toNat
  | .number (.negative n) => some n.toInt
  | _ => none

def intIn? (low high : Int) (item : Json) : Option Int :=
  (int? item).filter fun n => low ≤ n && n ≤ high

def word? : Json → Option UInt64
  | .number (.natural n) => some n
  | _ => none

def double? : Json → Option Number.Binary64
  | .number (.natural n) => some (.ofInt n.toNat)
  | .number (.negative n) => some (.ofInt n.toInt)
  | .number (.double x) => some x
  | _ => none

def single? : Json → Option Number.Binary32
  | .number (.natural n) => some (.ofInt n.toNat)
  | .number (.negative n) => some (.ofInt n.toInt)
  | .number (.double x) => some x.narrow
  | _ => none

end Json

end HeapLens
