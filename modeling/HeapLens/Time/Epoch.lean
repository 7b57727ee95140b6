import HeapLens.Heap.Cell
import HeapLens.Time.PatternReader

set_option autoImplicit false

namespace HeapLens

structure EpochFormat where
  pattern : String
  offsetMinutes : Int32
  wrongType : String
  deriving DecidableEq, Repr

namespace EpochFormat

/-- Day, month and year, and the time of the day in universal time. -/
def standard : EpochFormat where
  pattern := "[day].[month].[year] [hour]:[minute]:[second]"
  offsetMinutes := 0
  wrongType := "Wrong type"

end EpochFormat

inductive EpochFormatError where
  | invalidPattern (pattern : String)
  | offsetOutOfRange (minutes : Int32)
  deriving DecidableEq, Repr

def EpochFormatError.message : EpochFormatError → String
  | .invalidPattern pattern => "invalid epoch pattern '" ++ pattern ++ "'"
  | .offsetOutOfRange minutes =>
    "utc offset of " ++ Cell.intText minutes.toInt ++ " minutes is out of range"

structure EpochStyle where
  items : List Pattern.Item
  offset : Int
  wrongType : String
  deriving Repr

namespace EpochStyle

/--
A clock is at most this many seconds ahead of universal time or behind it: a second less than 26
hours.
-/
def offsetLimit : Nat := 93599

def offsetSeconds (minutes : Int32) : Int :=
  max Int32.minValue.toInt (min (60 * minutes.toInt) Int32.maxValue.toInt)

def ofFormat (f : EpochFormat) : Except EpochFormatError EpochStyle :=
  match Pattern.read? f.pattern with
  | none => .error (.invalidPattern f.pattern)
  | some items =>
    let offset := offsetSeconds f.offsetMinutes
    if offset.natAbs ≤ offsetLimit then .ok { items, offset, wrongType := f.wrongType }
    else .error (.offsetOutOfRange f.offsetMinutes)

def yearLimit : Nat := 9999

/-- The text of an epoch whose year can be shown. -/
def render? (style : EpochStyle) (millis : Int64) : Option String :=
  let m := Calendar.Moment.ofMillis millis.toInt style.offset
  if m.date.year.natAbs ≤ yearLimit then
    some (String.ofList (Pattern.renderAll m style.items))
  else none

end EpochStyle

end HeapLens
