import HeapLens.Number.Reader
import HeapLens.Query.Value

set_option autoImplicit false

namespace HeapLens.CommandLine

inductive NodeError where
  | numeral (e : Text.NumeralError)
  | refused (fault : Fault)
  | nothingAt (word : String)
  | unnamed (word : String)
  deriving DecidableEq, Repr

def NodeError.message : NodeError → String
  | .numeral e => e.message
  | .refused fault => fault.message
  | .nothingAt word => "no node at address " ++ word
  | .unnamed word => "expected #<id> or 0x<address>, got '" ++ word ++ "'"

def nodeNumbered (store : Store) (digits : List Char) : Except NodeError NodeId := do
  let word ← (Text.readUInt64 10 digits).mapError .numeral
  let _ ← (store.kind ⟨word⟩).mapError .refused
  .ok ⟨word⟩

def nodeAddressed (store : Store) (word : String) (digits : List Char) :
    Except NodeError NodeId := do
  let address ← (Text.readUInt64 16 digits).mapError .numeral
  match store.nodeAt address with
  | some node => .ok node
  | none => .error (.nothingAt word)

def readNode (store : Store) (word : String) : Except NodeError NodeId :=
  match word.toList with
  | '#' :: digits => nodeNumbered store digits
  | '0' :: 'x' :: digits => nodeAddressed store word digits
  | '0' :: 'X' :: digits => nodeAddressed store word digits
  | _ => .error (.unnamed word)

/-- The number that a word denotes; a word without any digit denotes none. -/
def number? (word : String) : Option QueryValue :=
  let chars := word.toList
  (Text.readInt64? chars).map .integer
  <|> if chars.any Char.isDigit then (Number.Binary64.read? chars).map .real else none

def readValue (place : Nat) (store : Store) (word : String) : Except NodeError QueryValue :=
  match word.toList with
  | '#' :: digits => (nodeNumbered store digits).map fun node => .handle ⟨place, node⟩
  | _ =>
    match word with
    | "null" => .ok .null
    | "true" => .ok (.boolean true)
    | "false" => .ok (.boolean false)
    | _ => .ok ((number? word).getD (.text word))

end HeapLens.CommandLine
