set_option autoImplicit false

namespace HeapLens.Text

inductive NumeralError where
  | empty
  | badDigit
  | tooLarge
  deriving DecidableEq, Repr

def NumeralError.message : NumeralError → String
  | .empty => "cannot parse integer from empty string"
  | .badDigit => "invalid digit found in string"
  | .tooLarge => "number too large to fit in target type"

def digitValue? (base : Nat) (c : Char) : Option Nat :=
  let value? :=
    if '0' ≤ c ∧ c ≤ '9' then some (c.toNat - '0'.toNat)
    else if 'a' ≤ c ∧ c ≤ 'z' then some (c.toNat - 'a'.toNat + 10)
    else if 'A' ≤ c ∧ c ≤ 'Z' then some (c.toNat - 'A'.toNat + 10)
    else none
  value?.filter (· < base)

/-- Reads digits onto the value read so far, which never passes `bound`. -/
def readDigits (base bound : Nat) : Nat → List Char → Except NumeralError Nat
  | value, [] => .ok value
  | value, c :: rest =>
    match digitValue? base c with
    | none => .error .badDigit
    | some digit =>
      let next := value * base + digit
      if bound < next then .error .tooLarge else readDigits base bound next rest

def readNat (base bound : Nat) : List Char → Except NumeralError Nat
  | [] => .error .empty
  | ['+'] => .error .badDigit
  | '+' :: digits => readDigits base bound 0 digits
  | digits => readDigits base bound 0 digits

def readUInt64 (base : Nat) (text : List Char) : Except NumeralError UInt64 :=
  (readNat base (UInt64.size - 1) text).map UInt64.ofNat

def magnitude? (bound : Nat) (digits : List Char) : Option Nat :=
  if digits.isEmpty then none else (readDigits 10 bound 0 digits).toOption

/-- The magnitude that a negative integer of 64 bits may just have, and a positive one may not. -/
def int64Limit : Nat := 0x8000000000000000

def readInt64? : List Char → Option Int64
  | '-' :: digits => (magnitude? int64Limit digits).map fun n => Int64.ofInt (-(n : Int))
  | '+' :: digits => (magnitude? (int64Limit - 1) digits).map fun n => Int64.ofInt n
  | digits => (magnitude? (int64Limit - 1) digits).map fun n => Int64.ofInt n

def decimal (n : Nat) : List Char := Nat.toDigits 10 n

def hexadecimal (n : Nat) : List Char := Nat.toDigits 16 n

def padLeft (width : Nat) (fill : Char) (text : List Char) : List Char :=
  List.replicate (width - text.length) fill ++ text

def address (word : UInt64) : String :=
  "0x" ++ String.ofList (hexadecimal word.toNat)

end HeapLens.Text
