set_option autoImplicit false

namespace HeapLens.Number

structure Format where
  precision : Nat
  exponentBits : Nat
  deriving DecidableEq, Repr

def Format.single : Format := ⟨24, 8⟩

def Format.double : Format := ⟨53, 11⟩

namespace Format

def least (f : Format) : Int :=
  2 - Nat.pow 2 (f.exponentBits - 1) - ((f.precision : Int) - 1)

def stored (f : Format) : Nat := Nat.pow 2 (f.precision - 1)

def specialField (f : Format) : Nat := Nat.pow 2 f.exponentBits - 1

def infinity (f : Format) : Nat := f.specialField * f.stored

def signBit (f : Format) : Nat := Nat.pow 2 f.exponentBits * f.stored

end Format

/-- What a bit pattern denotes; a finite number is `significand · 2 ^ exponent`. -/
inductive Value where
  | nan
  | infinite (negative : Bool)
  | finite (negative : Bool) (significand : Nat) (exponent : Int)
  deriving DecidableEq, Repr

namespace Value

def isZero : Value → Bool
  | .finite _ 0 _ => true
  | _ => false

def isFinite : Value → Bool
  | .finite .. => true
  | _ => false

end Value

/-- `num / den` rounded to a natural, a half going to the even neighbour. -/
def roundToEven (num den : Nat) : Nat :=
  let floor := num / den
  let twice := 2 * (num % den)
  if twice < den then floor
  else if den < twice then floor + 1
  else if floor % 2 = 0 then floor
  else floor + 1

namespace Format

def decode (f : Format) (bits : Nat) : Value :=
  let negative := f.signBit ≤ bits
  let body := bits % f.signBit
  let field := body / f.stored
  let fraction := body % f.stored
  if field = f.specialField then
    if fraction = 0 then .infinite negative else .nan
  else if field = 0 then .finite negative fraction f.least
  else .finite negative (f.stored + fraction) (f.least + ((field : Int) - 1))

/-- The exponent of the last place of the format's numbers around `num / den`. -/
def placeOf (f : Format) (num den : Nat) : Int :=
  let estimate : Int := (num.log2 : Int) - den.log2
  let isBelow :=
    if 0 ≤ estimate then num < den * Nat.pow 2 estimate.toNat
    else num * Nat.pow 2 (-estimate).toNat < den
  let leading := if isBelow then estimate - 1 else estimate
  max f.least (leading - ((f.precision : Int) - 1))

def roundMagnitude (f : Format) (num den : Nat) : Nat :=
  if num = 0 then 0
  else
    let place := f.placeOf num den
    let significand :=
      if 0 ≤ place then roundToEven num (den * Nat.pow 2 place.toNat)
      else roundToEven (num * Nat.pow 2 (-place).toNat) den
    min f.infinity ((place - f.least).toNat * f.stored + significand)

def ofRatio (f : Format) (negative : Bool) (num den : Nat) : Nat :=
  (if negative then f.signBit else 0) + f.roundMagnitude num den

def ofScaled (f : Format) (negative : Bool) (significand : Nat) (exponent : Int) : Nat :=
  if 0 ≤ exponent then f.ofRatio negative (significand * Nat.pow 2 exponent.toNat) 1
  else f.ofRatio negative significand (Nat.pow 2 (-exponent).toNat)

def encode (f : Format) : Value → Nat
  | .nan => f.infinity + f.stored / 2
  | .infinite negative => (if negative then f.signBit else 0) + f.infinity
  | .finite negative significand exponent => f.ofScaled negative significand exponent

/-- The powers of ten beyond which every number of the two formats is infinite or zero. -/
def decimalReach : Int := 400

def ofDecimal (f : Format) (negative : Bool) (digits : Nat) (exponent : Int) : Nat :=
  if digits = 0 then f.ofRatio negative 0 1
  else
    let leading := exponent + (Nat.toDigits 10 digits).length
    if decimalReach < leading then f.encode (.infinite negative)
    else if leading < -decimalReach then f.ofRatio negative 0 1
    else if 0 ≤ exponent then f.ofRatio negative (digits * Nat.pow 10 exponent.toNat) 1
    else f.ofRatio negative digits (Nat.pow 10 (-exponent).toNat)

end Format

structure Binary64 where
  bits : UInt64
  deriving DecidableEq, Repr

structure Binary32 where
  bits : UInt32
  deriving DecidableEq, Repr

namespace Binary64

def value (x : Binary64) : Value := Format.double.decode x.bits.toNat

def ofValue (v : Value) : Binary64 := ⟨UInt64.ofNat (Format.double.encode v)⟩

def ofDecimal (negative : Bool) (digits : Nat) (exponent : Int) : Binary64 :=
  ⟨UInt64.ofNat (Format.double.ofDecimal negative digits exponent)⟩

def ofInt (n : Int) : Binary64 := ofValue (.finite (n < 0) n.natAbs 0)

def same (x y : Binary64) : Bool :=
  match x.value, y.value with
  | .nan, _ => false
  | _, .nan => false
  | a, b => a.isZero && b.isZero || x == y

def mul (x y : Binary64) : Binary64 :=
  match x.value, y.value with
  | .finite s m q, .finite t n r => ofValue (.finite (s != t) (m * n) (q + r))
  | _, _ => ofValue .nan

def div (x y : Binary64) : Binary64 :=
  match x.value, y.value with
  | .finite s m q, .finite t n r =>
    let exponent := q - r
    let num := if 0 ≤ exponent then m * Nat.pow 2 exponent.toNat else m
    let den := if 0 ≤ exponent then n else n * Nat.pow 2 (-exponent).toNat
    ⟨UInt64.ofNat (Format.double.ofRatio (s != t) num den)⟩
  | _, _ => ofValue .nan

end Binary64

namespace Binary32

def value (x : Binary32) : Value := Format.single.decode x.bits.toNat

def ofValue (v : Value) : Binary32 := ⟨UInt32.ofNat (Format.single.encode v)⟩

def ofDecimal (negative : Bool) (digits : Nat) (exponent : Int) : Binary32 :=
  ⟨UInt32.ofNat (Format.single.ofDecimal negative digits exponent)⟩

def ofInt (n : Int) : Binary32 := ofValue (.finite (n < 0) n.natAbs 0)

def widen (x : Binary32) : Binary64 := .ofValue x.value

end Binary32

def Binary64.narrow (x : Binary64) : Binary32 := .ofValue x.value

end HeapLens.Number
