import HeapLens.Text.Numeral

set_option autoImplicit false

namespace HeapLens.Text

def literalDigits : List Char → Nat × List Char
  | '0' :: 'x' :: digits => (16, digits)
  | '0' :: 'X' :: digits => (16, digits)
  | '#' :: digits => (16, digits)
  | '0' :: first :: rest => (8, first :: rest)
  | digits => (10, digits)

def literalMagnitude? (text : List Char) : Option Nat :=
  let (base, digits) := literalDigits text
  if digits.isEmpty then none else (readDigits base (UInt64.size - 1) 0 digits).toOption

def readLiteral? (text : List Char) : Option Int64 :=
  let (negative, unsigned) := match text with
    | '-' :: rest => (true, rest)
    | '+' :: rest => (false, rest)
    | rest => (false, rest)
  (literalMagnitude? unsigned).bind fun n =>
    if negative then
      if n ≤ int64Limit then some (Int64.ofInt (-(n : Int))) else none
    else if n < int64Limit then some (Int64.ofInt n) else none

end HeapLens.Text
