set_option autoImplicit false

namespace HeapLens.Calendar

def isLeap (year : Int) : Bool :=
  year % 4 = 0 && (year % 100 ≠ 0 || year % 400 = 0)

def daysBefore (year : Int) : Int :=
  let past := year - 1
  365 * past + past / 4 - past / 100 + past / 400

def yearOf (day : Int) : Int :=
  let guess := 400 * day / 146097 + 1
  if day < daysBefore guess then guess - 1
  else if daysBefore (guess + 1) ≤ day then guess + 1
  else guess

structure Date where
  year : Int
  dayOfYear : Nat
  deriving DecidableEq, Repr

namespace Date

def epochDay : Int := 719162

def ofDays (days : Int) : Date :=
  let day := days + epochDay
  let year := yearOf day
  ⟨year, (day - daysBefore year).toNat⟩

def toDays (d : Date) : Int := daysBefore d.year + d.dayOfYear - epochDay

def monthLengths (year : Int) : List Nat :=
  [31, if isLeap year then 29 else 28, 31, 30, 31, 30, 31, 31, 30, 31, 30, 31]

/-- Splits a day of the year into the number of months before it and the day of its month. -/
def splitMonths : List Nat → Nat → Nat × Nat
  | [], day => (0, day)
  | length :: rest, day =>
    if day < length then (0, day)
    else
      let (months, day) := splitMonths rest (day - length)
      (months + 1, day)

def month (d : Date) : Nat := (splitMonths (monthLengths d.year) d.dayOfYear).1 + 1

def day (d : Date) : Nat := (splitMonths (monthLengths d.year) d.dayOfYear).2 + 1

def ordinal (d : Date) : Nat := d.dayOfYear + 1

def daysFromMonday (d : Date) : Nat := ((d.toDays + 3) % 7).toNat

def daysFromSunday (d : Date) : Nat := ((d.toDays + 4) % 7).toNat

def sundayWeek (d : Date) : Nat := (d.ordinal + 6 - d.daysFromSunday) / 7

def mondayWeek (d : Date) : Nat := (d.ordinal + 6 - d.daysFromMonday) / 7

/-- The number of numbered weeks in a year: 53 if it begins or ends on a Thursday. -/
def weeksIn (year : Int) : Nat :=
  let firstDay := (Date.mk year 0).daysFromMonday
  if firstDay = 3 || (firstDay = 2 && isLeap year) then 53 else 52

def numberedWeek (d : Date) : Int × Nat :=
  match (d.ordinal + 9 - d.daysFromMonday) / 7 with
  | 0 => (d.year - 1, weeksIn (d.year - 1))
  | 53 => if weeksIn d.year = 52 then (d.year + 1, 1) else (d.year, 53)
  | week => (d.year, week)

end Date

def monthNames : List String :=
  ["January", "February", "March", "April", "May", "June", "July", "August", "September",
    "October", "November", "December"]

def dayNames : List String :=
  ["Monday", "Tuesday", "Wednesday", "Thursday", "Friday", "Saturday", "Sunday"]

structure Moment where
  date : Date
  millisOfDay : Nat
  offset : Int
  deriving DecidableEq, Repr

namespace Moment

def dayMillis : Nat := 86400000

def ofMillis (millis offset : Int) : Moment :=
  let shifted := millis + 1000 * offset
  ⟨.ofDays (shifted / dayMillis), (shifted % dayMillis).toNat, offset⟩

def toMillis (m : Moment) : Int :=
  m.date.toDays * dayMillis + m.millisOfDay - 1000 * m.offset

def hour (m : Moment) : Nat := m.millisOfDay / 3600000

def minute (m : Moment) : Nat := m.millisOfDay / 60000 % 60

def second (m : Moment) : Nat := m.millisOfDay / 1000 % 60

def nanosecond (m : Moment) : Nat := m.millisOfDay % 1000 * 1000000

end Moment

end HeapLens.Calendar
