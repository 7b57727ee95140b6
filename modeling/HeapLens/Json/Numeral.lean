import HeapLens.Json.Basic
import HeapLens.Number.Reader

set_option autoImplicit false

namespace HeapLens.Json

open Number (Binary64)

structure Numeral where
  negative : Bool
  whole : List Char
  fraction : List Char
  exponent : Option Int
  deriving DecidableEq, Repr

namespace Numeral

def exponent? : List Char → Option (Option Int)
  | [] => some none
  | chars => (Number.readExponent? chars).map some

def tail? (negative : Bool) (whole : List Char) : List Char → Option Numeral
  | '.' :: chars =>
    let fraction := chars.takeWhile Char.isDigit
    if fraction.isEmpty then none
    else (exponent? (chars.dropWhile Char.isDigit)).map (⟨negative, whole, fraction, ·⟩)
  | chars => (exponent? chars).map (⟨negative, whole, [], ·⟩)

def unsigned? (negative : Bool) : List Char → Option Numeral
  | '0' :: chars => tail? negative ['0'] chars
  | chars =>
    let whole := chars.takeWhile Char.isDigit
    if whole.isEmpty then none else tail? negative whole (chars.dropWhile Char.isDigit)

def ofText? : List Char → Option Numeral
  | '-' :: chars => unsigned? true chars
  | chars => unsigned? false chars

structure Scaled where
  significand : Nat
  exponent : Int
  deriving DecidableEq, Repr

/-- Reads on, as long as the significand fits 64 bits, and gives the digits that are left. -/
def Scaled.read (s : Scaled) (weight : Int) : List Char → Scaled × List Char
  | [] => (s, [])
  | c :: rest =>
    let next := s.significand * 10 + (c.toNat - '0'.toNat)
    if next < UInt64.size then Scaled.read ⟨next, s.exponent - weight⟩ weight rest
    else (s, c :: rest)

/--
The leading digits that fit 64 bits: whole digits left over scale, fraction digits are dropped.
-/
def scaled (n : Numeral) : Scaled :=
  let (s, left) := Scaled.read ⟨0, 0⟩ 0 n.whole
  let (s, _) := Scaled.read ⟨s.significand, s.exponent + left.length⟩ 1 n.fraction
  ⟨s.significand, s.exponent + n.exponent.getD 0⟩

def greatestPower : Nat := 308

def powerOfTen (exponent : Nat) : Binary64 := .ofDecimal false 1 exponent

def divide (x : Binary64) (exponent : Nat) : Binary64 :=
  if exponent ≤ greatestPower then x.div (powerOfTen exponent)
  else if x.value.isZero then x
  else divide (x.div (powerOfTen greatestPower)) (exponent - greatestPower)
termination_by exponent
decreasing_by simp only [greatestPower] at *; omega

def multiply? (x : Binary64) (exponent : Nat) : Option Binary64 :=
  if x.value.isZero then some x
  else if greatestPower < exponent then none
  else
    let product := x.mul (powerOfTen exponent)
    if product.value.isFinite then some product else none

def signed (negative : Bool) (x : Binary64) : Binary64 :=
  match x.value with
  | .finite _ significand exponent => .ofValue (.finite negative significand exponent)
  | other => .ofValue other

/-- The number that a numeral with a fraction, an exponent or too many digits denotes. -/
def real? (n : Numeral) : Option Binary64 :=
  let s := n.scaled
  let x := Binary64.ofInt s.significand
  let magnitude :=
    if 0 ≤ s.exponent then multiply? x s.exponent.toNat
    else some (divide x (-s.exponent).toNat)
  magnitude.map (signed n.negative)

def value? (n : Numeral) : Option Numeric :=
  let magnitude := Number.digitsValue 0 n.whole
  let isIntegral := n.fraction.isEmpty && n.exponent.isNone
  if isIntegral && !n.negative && magnitude < UInt64.size then
    some (.natural (UInt64.ofNat magnitude))
  else if isIntegral && n.negative && 0 < magnitude && magnitude ≤ Text.int64Limit then
    some (.negative (Int64.ofInt (-(magnitude : Int))))
  else n.real?.map .double

end Numeral

end HeapLens.Json
