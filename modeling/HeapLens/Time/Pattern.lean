import HeapLens.Text.Numeral
import HeapLens.Time.Calendar

set_option autoImplicit false

namespace HeapLens.Pattern

open Calendar

inductive Padding where
  | zero
  | space
  | nothing
  deriving DecidableEq, Repr

inductive MonthForm where
  | number
  | name
  | shortName
  deriving DecidableEq, Repr

inductive WeekdayForm where
  | name
  | shortName
  | fromSunday
  | fromMonday
  deriving DecidableEq, Repr

inductive WeekForm where
  | numbered
  | fromSunday
  | fromMonday
  deriving DecidableEq, Repr

inductive YearForm where
  | full
  | century
  | lastTwo
  deriving DecidableEq, Repr

inductive Precision where
  | second
  | millisecond
  | microsecond
  | nanosecond
  deriving DecidableEq, Repr

inductive Component where
  | day (padding : Padding)
  | month (padding : Padding) (form : MonthForm)
  | year (padding : Padding) (form : YearForm) (ofWeek : Bool) (plus : Bool)
  | weekday (form : WeekdayForm) (fromOne : Bool)
  | week (padding : Padding) (form : WeekForm)
  | ordinal (padding : Padding)
  | hour (padding : Padding) (halfDay : Bool)
  | minute (padding : Padding)
  | second (padding : Padding)
  | period (upper : Bool)
  | subsecond (digits : Option Nat)
  | offsetHour (padding : Padding) (plus : Bool)
  | offsetMinute (padding : Padding)
  | offsetSecond (padding : Padding)
  | timestamp (precision : Precision) (plus : Bool)
  | silent
  deriving DecidableEq, Repr

inductive Item where
  | literal (text : List Char)
  | component (c : Component)
  | group (items : List Item)
  | choice (alternatives : List (List Item))
  deriving Repr

def number (width : Nat) (padding : Padding) (n : Nat) : List Char :=
  let digits := Text.decimal n
  match padding with
  | .zero => Text.padLeft width '0' digits
  | .space => Text.padLeft width ' ' digits
  | .nothing => digits

def sign (isNegative plus : Bool) : List Char :=
  if isNegative then ['-'] else if plus then ['+'] else []

def trimFraction (digits : List Char) : List Char :=
  match (digits.reverse.dropWhile (· = '0')).reverse with
  | [] => ['0']
  | digits => digits

def renderYear (padding : Padding) (form : YearForm) (plus : Bool) (year : Int) : List Char :=
  match form with
  | .full => sign (year < 0) plus ++ number 4 padding year.natAbs
  | .century => sign (year < 0) plus ++ number 2 padding (year.natAbs / 100)
  | .lastTwo => number 2 padding (year.natAbs % 100)

def clockHour (hour : Nat) : Nat := if hour % 12 = 0 then 12 else hour % 12

/-- A count of units since the beginning of 1970; seconds are counted downwards from there. -/
def timestampCount (precision : Precision) (millis : Int) : Nat :=
  match precision with
  | .second => (millis / 1000).natAbs
  | .millisecond => millis.natAbs
  | .microsecond => millis.natAbs * 1000
  | .nanosecond => millis.natAbs * 1000000

def Component.render (m : Moment) : Component → List Char
  | .day padding => number 2 padding m.date.day
  | .month padding form =>
    let name := (monthNames[m.date.month - 1]?.getD "").toList
    match form with
    | .number => number 2 padding m.date.month
    | .name => name
    | .shortName => name.take 3
  | .year padding form ofWeek plus =>
    renderYear padding form plus (if ofWeek then m.date.numberedWeek.1 else m.date.year)
  | .weekday form fromOne =>
    let name := (dayNames[m.date.daysFromMonday]?.getD "").toList
    let base := if fromOne then 1 else 0
    match form with
    | .name => name
    | .shortName => name.take 3
    | .fromSunday => Text.decimal (m.date.daysFromSunday + base)
    | .fromMonday => Text.decimal (m.date.daysFromMonday + base)
  | .week padding form =>
    match form with
    | .numbered => number 2 padding m.date.numberedWeek.2
    | .fromSunday => number 2 padding m.date.sundayWeek
    | .fromMonday => number 2 padding m.date.mondayWeek
  | .ordinal padding => number 3 padding m.date.ordinal
  | .hour padding halfDay => number 2 padding (if halfDay then clockHour m.hour else m.hour)
  | .minute padding => number 2 padding m.minute
  | .second padding => number 2 padding m.second
  | .period upper =>
    match decide (m.hour < 12), upper with
    | true, true => ['A', 'M']
    | true, false => ['a', 'm']
    | false, true => ['P', 'M']
    | false, false => ['p', 'm']
  | .subsecond digits =>
    let all := number 9 .zero m.nanosecond
    match digits with
    | some count => all.take count
    | none => trimFraction all
  | .offsetHour padding plus =>
    sign (m.offset < 0) plus ++ number 2 padding (m.offset.natAbs / 3600)
  | .offsetMinute padding => number 2 padding (m.offset.natAbs / 60 % 60)
  | .offsetSecond padding => number 2 padding (m.offset.natAbs % 60)
  | .timestamp precision plus =>
    sign (m.toMillis < 0) plus ++ Text.decimal (timestampCount precision m.toMillis)
  | .silent => []

mutual

def Item.render (m : Moment) : Item → List Char
  | .literal text => text
  | .component c => c.render m
  | .group items => renderAll m items
  | .choice alternatives => renderFirst m alternatives

def renderAll (m : Moment) : List Item → List Char
  | [] => []
  | item :: rest => item.render m ++ renderAll m rest

def renderFirst (m : Moment) : List (List Item) → List Char
  | [] => []
  | items :: _ => renderAll m items

end

end HeapLens.Pattern
