import HeapLens.Number.Binary

/-!
# The fewest digits that read back

A decimal text denotes a binary number as soon as it lies in the interval of reals that round to
it. `shortest` looks for the coarsest power of ten that has a multiple in this interval, and takes
the multiple nearest to the number. All comparisons are exact.
-/

set_option autoImplicit false

namespace HeapLens.Number

inductive Tie where
  | up
  | even
  deriving DecidableEq, Repr

structure Decimal where
  digits : Nat
  exponent : Int
  deriving DecidableEq, Repr

/--
A positive number and the reals that round to it, in quarters of its last place: `low`, `center`
and `high` times `2 ^ exponent`. The ends belong to the interval if `closed` holds.
-/
structure Interval where
  low : Nat
  center : Nat
  high : Nat
  exponent : Int
  closed : Bool
  deriving DecidableEq, Repr

/--
The interval of `significand · 2 ^ exponent`. Below a power of two the numbers lie twice as dense,
so the interval reaches half as far down there.
-/
def Format.interval (f : Format) (significand : Nat) (exponent : Int) : Interval where
  low :=
    if significand = f.stored ∧ f.least < exponent then 4 * significand - 1
    else 4 * significand - 2
  center := 4 * significand
  high := 4 * significand + 2
  exponent := exponent - 2
  closed := significand % 2 = 0

namespace Interval

def unit (i : Interval) (place : Int) : Nat :=
  Nat.pow 2 i.exponent.toNat * Nat.pow 10 (-place).toNat

def step (i : Interval) (place : Int) : Nat :=
  Nat.pow 10 place.toNat * Nat.pow 2 (-i.exponent).toNat

def holds (i : Interval) (place : Int) (digits : Nat) : Bool :=
  let point := digits * i.step place
  let low := i.low * i.unit place
  let high := i.high * i.unit place
  if i.closed then low ≤ point && point ≤ high else low < point && point < high

def below (i : Interval) (place : Int) : Nat :=
  i.center * i.unit place / i.step place

def nearest? (i : Interval) (tie : Tie) (place : Int) : Option Nat :=
  let lower := i.below place
  match i.holds place lower, i.holds place (lower + 1) with
  | false, false => none
  | true, false => some lower
  | false, true => some (lower + 1)
  | true, true =>
    let twice := 2 * (i.center * i.unit place % i.step place)
    if twice < i.step place then some lower
    else if i.step place < twice then some (lower + 1)
    else match tie with
      | .up => some (lower + 1)
      | .even => if lower % 2 = 0 then some lower else some (lower + 1)

def top (i : Interval) : Int :=
  ((i.center.log2 : Int) + i.exponent) * 30103 / 100000 + 2

def search (i : Interval) (tie : Tie) : Nat → Int → Decimal
  | 0, place => ⟨i.below place, place⟩
  | count + 1, place =>
    match i.nearest? tie place with
    | some digits => ⟨digits, place⟩
    | none => i.search tie count (place - 1)

/-- Seventeen digits always read back, and the search starts at most three places too high. -/
def places : Nat := 20

def shortest (i : Interval) (tie : Tie) : Decimal :=
  i.search tie places i.top

end Interval

/-- The shortest decimal that reads back as `significand · 2 ^ exponent`. -/
def Format.shortest (f : Format) (tie : Tie) (significand : Nat) (exponent : Int) : Decimal :=
  (f.interval significand exponent).shortest tie

end HeapLens.Number
