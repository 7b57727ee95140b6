import HeapLens.Time.Calendar
import Mathlib.Algebra.BigOperators.Intervals

set_option autoImplicit false

open Finset

namespace HeapLens.Calendar

variable {year year' day : Int} {lengths : List Nat}

/-- Every fourth year is a leap year, but of the centuries only every fourth. -/
def IsLeapYear (year : Int) : Prop := 4 ∣ year ∧ (100 ∣ year → 400 ∣ year)

instance : DecidablePred IsLeapYear := fun year =>
  inferInstanceAs (Decidable (4 ∣ year ∧ (100 ∣ year → 400 ∣ year)))

def yearLength (year : Int) : Nat := if IsLeapYear year then 366 else 365

def monthLength (year : Int) (month : Nat) : Nat :=
  if month = 2 then if IsLeapYear year then 29 else 28
  else if month = 4 ∨ month = 6 ∨ month = 9 ∨ month = 11 then 30 else 31

def daysToYear (year : Int) : Int :=
  ∑ i ∈ range (year - 1970).toNat, (yearLength (1970 + i) : Int) -
    ∑ i ∈ range (1970 - year).toNat, (yearLength (1969 - i) : Int)

structure Civil where
  year : Int
  month : Nat
  day : Nat
  hour : Nat
  minute : Nat
  second : Nat
  deriving DecidableEq, Repr

namespace Civil

/-- Whether a date and a time of the day exist. -/
@[mk_iff]
structure IsValid (c : Civil) : Prop where
  month_pos : 1 ≤ c.month
  month_le : c.month ≤ 12
  day_pos : 1 ≤ c.day
  day_le : c.day ≤ monthLength c.year c.month
  hour_lt : c.hour < 24
  minute_lt : c.minute < 60
  second_lt : c.second < 60

instance : DecidablePred IsValid := fun c => decidable_of_iff' _ (isValid_iff c)

def dayOfYear (c : Civil) : Nat :=
  ∑ i ∈ range (c.month - 1), monthLength c.year (i + 1) + (c.day - 1)

/-- The days from 1 January 1970 to the date. -/
def days (c : Civil) : Int := daysToYear c.year + c.dayOfYear

/-- The seconds from the beginning of 1970. -/
def seconds (c : Civil) : Int := 86400 * c.days + 3600 * c.hour + 60 * c.minute + c.second

def newYear (year : Int) : Civil := ⟨year, 1, 1, 0, 0, 0⟩

end Civil

theorem isLeap_iff : isLeap year = true ↔ IsLeapYear year := by
  simp only [isLeap, IsLeapYear, Bool.and_eq_true, Bool.or_eq_true, decide_eq_true_eq]
  omega

theorem daysBefore_succ (year : Int) :
    daysBefore (year + 1) = daysBefore year + yearLength year := by
  simp only [daysBefore, yearLength]
  split_ifs with leap <;> unfold IsLeapYear at leap <;> omega

theorem daysBefore_mono (le : year ≤ year') : daysBefore year ≤ daysBefore year' := by
  induction year', le using Int.leInduction with
  | base => exact Int.le_refl _
  | succ later _ ih =>
    rw [daysBefore_succ]
    omega

theorem yearOf_spec (day : Int) :
    daysBefore (yearOf day) ≤ day ∧ day < daysBefore (yearOf day + 1) := by
  simp only [yearOf]
  split_ifs <;> simp only [daysBefore] at * <;> omega

theorem le_yearOf_iff : year ≤ yearOf day ↔ daysBefore year ≤ day := by
  obtain ⟨lower, upper⟩ := yearOf_spec day
  constructor
  · exact fun le => (daysBefore_mono le).trans lower
  · intro le
    by_contra later
    have := daysBefore_mono (show yearOf day + 1 ≤ year by omega)
    omega

theorem yearOf_eq (lower : daysBefore year ≤ day)
    (upper : day < daysBefore year + yearLength year) : yearOf day = year := by
  rw [← daysBefore_succ] at upper
  have below := le_yearOf_iff.mpr lower
  have above := mt le_yearOf_iff.mp (Int.not_le.mpr upper)
  omega

theorem sum_years_after (n : Nat) :
    ∑ i ∈ range n, (yearLength (1970 + i) : Int) = daysBefore (1970 + n) - daysBefore 1970 := by
  have step (i : Nat) : (yearLength (1970 + i) : Int) =
      daysBefore (1970 + (i + 1 : Nat)) - daysBefore (1970 + i) := by
    have := daysBefore_succ (1970 + i)
    rw [show (1970 : Int) + (i + 1 : Nat) = 1970 + i + 1 by omega]
    omega
  simp only [step]
  exact sum_range_sub (fun i : Nat => daysBefore (1970 + i)) n

theorem sum_years_before (n : Nat) :
    ∑ i ∈ range n, (yearLength (1969 - i) : Int) = daysBefore 1970 - daysBefore (1970 - n) := by
  have step (i : Nat) : (yearLength (1969 - i) : Int) =
      daysBefore (1970 - i) - daysBefore (1970 - (i + 1 : Nat)) := by
    have := daysBefore_succ (1969 - i)
    rw [show (1970 : Int) - (i + 1 : Nat) = 1969 - i by omega,
      show (1970 : Int) - i = 1969 - i + 1 by omega]
    omega
  simp only [step]
  exact sum_range_sub' (fun i : Nat => daysBefore (1970 - i)) n

theorem daysToYear_eq (year : Int) : daysToYear year = daysBefore year - Date.epochDay := by
  have start : daysBefore 1970 = Date.epochDay := rfl
  rw [daysToYear, sum_years_after, sum_years_before, start]
  rcases Int.le_total 1970 year with after | before
  · rw [show (1970 : Int) + (year - 1970).toNat = year by omega,
      show (1970 : Int) - (1970 - year).toNat = 1970 by omega, start]
    omega
  · rw [show (1970 : Int) + (year - 1970).toNat = 1970 by omega,
      show (1970 : Int) - (1970 - year).toNat = year by omega, start]
    omega

theorem splitMonths_of_lt {k rest : Nat} (low : k < lengths.length) (inside : rest < lengths[k]) :
    Date.splitMonths lengths ((lengths.take k).sum + rest) = (k, rest) := by
  induction lengths generalizing k with
  | nil => exact absurd low (Nat.not_lt_zero k)
  | cons length lengths ih =>
    cases k with
    | zero => simpa [Date.splitMonths] using inside
    | succ k =>
      have later : ¬length + (lengths.take k).sum + rest < length := by omega
      have less : length + (lengths.take k).sum + rest - length = (lengths.take k).sum + rest := by
        omega
      rw [List.take_succ_cons, List.sum_cons, Date.splitMonths, if_neg later, less,
        ih (Nat.lt_of_succ_lt_succ low) inside]

theorem exists_month {day : Nat} (inside : day < lengths.sum) :
    ∃ k rest, ∃ low : k < lengths.length, rest < lengths[k] ∧
      day = (lengths.take k).sum + rest := by
  induction lengths generalizing day with
  | nil => exact absurd inside (Nat.not_lt_zero day)
  | cons length lengths ih =>
    by_cases first : day < length
    · exact ⟨0, day, by simp, first, by simp⟩
    · rw [List.sum_cons] at inside
      obtain ⟨k, rest, low, below, eq⟩ := ih (show day - length < lengths.sum by omega)
      refine ⟨k + 1, rest, by simpa using low, below, ?_⟩
      rw [List.take_succ_cons, List.sum_cons]
      omega

theorem monthLengths_eq (year : Int) :
    Date.monthLengths year = (List.range 12).map fun i => monthLength year (i + 1) := by
  unfold Date.monthLengths
  by_cases leap : IsLeapYear year
  · simp [isLeap_iff.mpr leap, leap, monthLength, List.range_succ]
  · simp [mt isLeap_iff.mp leap, leap, monthLength, List.range_succ]

theorem sum_take_monthLengths (year : Int) {k : Nat} (low : k ≤ 12) :
    ((Date.monthLengths year).take k).sum = ∑ i ∈ range k, monthLength year (i + 1) := by
  rw [monthLengths_eq, ← List.map_take, List.take_range, Nat.min_eq_left low]
  rfl

theorem sum_monthLengths (year : Int) : (Date.monthLengths year).sum = yearLength year := by
  unfold Date.monthLengths yearLength
  by_cases leap : IsLeapYear year
  · simp [isLeap_iff.mpr leap, leap]
  · simp [mt isLeap_iff.mp leap, leap]

theorem sum_take_add_getElem_le {k : Nat} (low : k < lengths.length) :
    (lengths.take k).sum + lengths[k] ≤ lengths.sum := by
  have split := congrArg List.sum (List.take_append_drop k lengths)
  rw [List.drop_eq_getElem_cons low, List.sum_append, List.sum_cons] at split
  omega

def Moment.civil (m : Moment) : Civil :=
  ⟨m.date.year, m.date.month, m.date.day, m.hour, m.minute, m.second⟩

namespace Civil

variable {c c' : Civil}

theorem IsValid.date_fields (valid : c.IsValid) :
    Date.splitMonths (Date.monthLengths c.year) c.dayOfYear = (c.month - 1, c.day - 1) ∧
      c.dayOfYear < yearLength c.year := by
  obtain ⟨month_pos, month_le, day_pos, day_le, -, -, -⟩ := valid
  have low : c.month - 1 < (Date.monthLengths c.year).length := by
    rw [monthLengths_eq, List.length_map, List.length_range]
    omega
  have inside : c.day - 1 < (Date.monthLengths c.year)[c.month - 1] := by
    simp only [monthLengths_eq, List.getElem_map, List.getElem_range, Nat.sub_add_cancel month_pos]
    omega
  have passed := sum_take_monthLengths c.year (show c.month - 1 ≤ 12 by omega)
  have whole := sum_take_add_getElem_le low
  rw [sum_monthLengths] at whole
  rw [dayOfYear, ← passed]
  exact ⟨splitMonths_of_lt low inside, by omega⟩

theorem IsValid.ofDays_days (valid : c.IsValid) : Date.ofDays c.days = ⟨c.year, c.dayOfYear⟩ := by
  have inside := valid.date_fields.2
  have day_eq : c.days + Date.epochDay = daysBefore c.year + c.dayOfYear := by
    rw [days, daysToYear_eq]
    omega
  have year_eq : yearOf (c.days + Date.epochDay) = c.year :=
    yearOf_eq (by omega) (by omega)
  simp only [Date.ofDays, year_eq, Date.mk.injEq, true_and]
  omega

theorem IsValid.civil_ofMillis (valid : c.IsValid) {millis offset : Int}
    (same : c.seconds = (millis + 1000 * offset) / 1000) :
    (Moment.ofMillis millis offset).civil = c := by
  have split := valid.date_fields.1
  have date := valid.ofDays_days
  obtain ⟨month_pos, -, day_pos, -, hour_lt, minute_lt, second_lt⟩ := valid
  rw [seconds] at same
  have days_eq : (millis + 1000 * offset) / (Moment.dayMillis : Int) = c.days := by
    simp only [Moment.dayMillis]
    omega
  have clock : ((millis + 1000 * offset) % (Moment.dayMillis : Int)).toNat / 1000 =
      3600 * c.hour + 60 * c.minute + c.second := by
    simp only [Moment.dayMillis]
    omega
  simp only [Moment.ofMillis, Moment.civil, days_eq, date, Date.month, Date.day, split, Moment.hour,
    Moment.minute, Moment.second, Nat.sub_add_cancel month_pos, Nat.sub_add_cancel day_pos]
  generalize ((millis + 1000 * offset) % (Moment.dayMillis : Int)).toNat = rest at clock
  have hour_eq : rest / 3600000 = c.hour := by omega
  have minute_eq : rest / 60000 % 60 = c.minute := by omega
  have second_eq : rest / 1000 % 60 = c.second := by omega
  rw [hour_eq, minute_eq, second_eq]

/-- Every day has a date. -/
theorem exists_days_eq (count : Int) : ∃ c : Civil, 1 ≤ c.month ∧ c.month ≤ 12 ∧ 1 ≤ c.day ∧
    c.day ≤ monthLength c.year c.month ∧ c.days = count := by
  have count_eq : count = count + Date.epochDay - Date.epochDay := by omega
  obtain ⟨lower, upper⟩ := yearOf_spec (count + Date.epochDay)
  generalize count + Date.epochDay = day at *
  generalize yearOf day = year at *
  rw [daysBefore_succ] at upper
  have in_year : (day - daysBefore year).toNat < (Date.monthLengths year).sum := by
    rw [sum_monthLengths]
    omega
  obtain ⟨k, rest, low, inside, passed⟩ := exists_month in_year
  rw [monthLengths_eq, List.length_map, List.length_range] at low
  rw [sum_take_monthLengths year low.le] at passed
  simp only [monthLengths_eq, List.getElem_map, List.getElem_range] at inside
  refine ⟨⟨year, k + 1, rest + 1, 0, 0, 0⟩, Nat.le_add_left 1 k, low, Nat.le_add_left 1 rest,
    inside, ?_⟩
  simp only [days, dayOfYear, daysToYear_eq, Nat.add_sub_cancel, ← passed]
  omega

theorem exists_seconds_eq (s : Int) : ∃ c : Civil, c.IsValid ∧ c.seconds = s := by
  obtain ⟨date, month_pos, month_le, day_pos, day_le, days_eq⟩ := exists_days_eq (s / 86400)
  obtain ⟨clock, clock_eq⟩ : ∃ clock : Nat, s % 86400 = clock := ⟨(s % 86400).toNat, by omega⟩
  let c : Civil := { date with
    hour := clock / 3600, minute := clock / 60 % 60, second := clock % 60 }
  have hour_lt : clock / 3600 < 24 := by omega
  have valid : c.IsValid := ⟨month_pos, month_le, day_pos, day_le, hour_lt,
    Nat.mod_lt _ (by decide), Nat.mod_lt _ (by decide)⟩
  have seconds_eq : c.seconds = 86400 * date.days + 3600 * (clock / 3600 : Nat) +
      60 * (clock / 60 % 60 : Nat) + (clock % 60 : Nat) := rfl
  refine ⟨c, valid, ?_⟩
  rw [seconds_eq, days_eq]
  omega

theorem IsValid.eq_of_seconds (valid : c.IsValid) (valid' : c'.IsValid)
    (same : c.seconds = c'.seconds) : c = c' := by
  have shifted (s : Int) : s = (1000 * s + 1000 * 0) / 1000 := by omega
  exact (valid.civil_ofMillis (shifted _)).symm.trans (valid'.civil_ofMillis (same ▸ shifted _))

theorem IsValid.newYear_le_iff (valid : c.IsValid) :
    (newYear year).seconds ≤ c.seconds ↔ year ≤ c.year := by
  have inside := valid.date_fields.2
  have next := daysBefore_succ c.year
  obtain ⟨-, -, -, -, hour_lt, minute_lt, second_lt⟩ := valid
  have start : (newYear year).seconds = 86400 * (daysBefore year - Date.epochDay) := by
    simp [seconds, days, dayOfYear, newYear, daysToYear_eq]
  rw [start, seconds, days, daysToYear_eq]
  constructor
  · intro le
    by_contra later
    have := daysBefore_mono (show c.year + 1 ≤ year by omega)
    omega
  · intro le
    have := daysBefore_mono le
    omega

end Civil

end HeapLens.Calendar
