import HeapLens.Number.Binary
import HeapLens.Text.Caseless
import HeapLens.Text.Numeral

set_option autoImplicit false

namespace HeapLens.Number

inductive Literal where
  | nan
  | infinite (negative : Bool)
  | decimal (negative : Bool) (digits : Nat) (exponent : Int)
  deriving DecidableEq, Repr

def digitsValue (value : Nat) (digits : List Char) : Nat :=
  digits.foldl (fun n c => n * 10 + (c.toNat - '0'.toNat)) value

def readExponent? : List Char → Option Int
  | [] => some 0
  | mark :: text =>
    if mark = 'e' ∨ mark = 'E' then
      let (negative, digits) := match text with
        | '-' :: digits => (true, digits)
        | '+' :: digits => (false, digits)
        | digits => (false, digits)
      if digits.isEmpty || !digits.all Char.isDigit then none
      else
        let size : Int := digitsValue 0 digits
        some (if negative then -size else size)
    else none

def readMagnitude? (negative : Bool) (text : List Char) : Option Literal :=
  let whole := text.takeWhile Char.isDigit
  let afterWhole := text.dropWhile Char.isDigit
  let (fraction, afterFraction) := match afterWhole with
    | '.' :: tail => (tail.takeWhile Char.isDigit, tail.dropWhile Char.isDigit)
    | tail => ([], tail)
  if whole.isEmpty && fraction.isEmpty then none
  else
    (readExponent? afterFraction).map fun exponent =>
      .decimal negative (digitsValue (digitsValue 0 whole) fraction) (exponent - fraction.length)

def readUnsigned? (negative : Bool) (text : List Char) : Option Literal :=
  let word := text.map Char.toLower
  if word = ['i', 'n', 'f'] ∨ word = ['i', 'n', 'f', 'i', 'n', 'i', 't', 'y'] then
    some (.infinite negative)
  else if word = ['n', 'a', 'n'] then some .nan
  else readMagnitude? negative text

def readLiteral? : List Char → Option Literal
  | '-' :: text => readUnsigned? true text
  | '+' :: text => readUnsigned? false text
  | text => readUnsigned? false text

def Binary64.read? (text : List Char) : Option Binary64 :=
  (readLiteral? text).map fun
    | .nan => .ofValue .nan
    | .infinite negative => .ofValue (.infinite negative)
    | .decimal negative digits exponent => .ofDecimal negative digits exponent

def Binary32.read? (text : List Char) : Option Binary32 :=
  (readLiteral? text).map fun
    | .nan => .ofValue .nan
    | .infinite negative => .ofValue (.infinite negative)
    | .decimal negative digits exponent => .ofDecimal negative digits exponent

end HeapLens.Number
