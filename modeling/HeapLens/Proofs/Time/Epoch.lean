import HeapLens.Proofs.Time.Calendar
import HeapLens.Time.Epoch

set_option autoImplicit false

namespace HeapLens

namespace Calendar

/-- The digits of a number, with zeros before them up to a width. -/
def padded (width n : Nat) : List Char := Text.padLeft width '0' (Text.decimal n)

/-- The four digits of a year, with a sign before them if it is negative. -/
def yearText (year : Int) : List Char := (if year < 0 then ['-'] else []) ++ padded 4 year.natAbs

def Civil.text (c : Civil) : List Char :=
  padded 2 c.day ++ '.' :: (padded 2 c.month ++ '.' :: (yearText c.year ++ ' ' ::
    (padded 2 c.hour ++ ':' :: (padded 2 c.minute ++ ':' :: padded 2 c.second))))

variable {width m n : Nat} {year year' : Int} {rest rest' : List Char}

theorem ofDigitChars_padded (width n : Nat) : Nat.ofDigitChars 10 (padded width n) 0 = n := by
  rw [padded, Text.padLeft, Nat.ofDigitChars_append, Nat.ofDigitChars_replicate_zero, Nat.mul_zero]
  exact Nat.ofDigitChars_ten_toDigits

theorem length_padded (width_pos : 0 < width) (low : n < 10 ^ width) :
    (padded width n).length = width := by
  have short : (Text.decimal n).length ≤ width :=
    (Nat.length_toDigits_le_iff (by decide) width_pos).mpr low
  simp only [padded, Text.padLeft, List.length_append, List.length_replicate]
  omega

theorem padded_append_inj (width_pos : 0 < width) (low : m < 10 ^ width) (low' : n < 10 ^ width)
    (same : padded width m ++ rest = padded width n ++ rest') : m = n ∧ rest = rest' := by
  have lengths := (length_padded width_pos low).trans (length_padded width_pos low').symm
  obtain ⟨digits, rest_eq⟩ := List.append_inj same lengths
  have value := congrArg (fun digits => Nat.ofDigitChars 10 digits 0) digits
  exact ⟨by simpa only [ofDigitChars_padded] using value, rest_eq⟩

theorem isDigit_of_mem_padded {c : Char} (mem : c ∈ padded width n) : c.isDigit = true := by
  rcases List.mem_append.mp mem with zero | digit
  · rw [List.eq_of_mem_replicate zero]
    rfl
  · exact Nat.isDigit_of_mem_toDigits (by decide) (by decide) digit

theorem minus_ne_padded (width_pos : 0 < width) (low : n < 10 ^ width) :
    '-' :: rest ≠ padded width n ++ rest' := by
  intro same
  have digit {c : Char} : c ∈ padded width n → c.isDigit = true := isDigit_of_mem_padded
  have length := length_padded width_pos low
  generalize padded width n = digits at *
  cases digits with
  | nil =>
    rw [List.length_nil] at length
    omega
  | cons c digits =>
    obtain ⟨rfl, -⟩ := List.cons.inj same
    cases digit List.mem_cons_self

theorem yearText_append_inj (shown : year.natAbs ≤ 9999) (shown' : year'.natAbs ≤ 9999)
    (same : yearText year ++ rest = yearText year' ++ rest') : year = year' ∧ rest = rest' := by
  have low : year.natAbs < 10 ^ 4 := by omega
  have low' : year'.natAbs < 10 ^ 4 := by omega
  unfold yearText at same
  by_cases negative : year < 0 <;> by_cases negative' : year' < 0 <;>
    simp only [negative, negative', if_true, if_false, List.cons_append, List.nil_append] at same
  · obtain ⟨abs_eq, rest_eq⟩ := padded_append_inj (by decide) low low' (List.cons.inj same).2
    exact ⟨by omega, rest_eq⟩
  · exact absurd same (minus_ne_padded (by decide) low')
  · exact absurd same.symm (minus_ne_padded (by decide) low)
  · obtain ⟨abs_eq, rest_eq⟩ := padded_append_inj (by decide) low low' same
    exact ⟨by omega, rest_eq⟩

theorem monthLength_le (year : Int) (month : Nat) : monthLength year month ≤ 31 := by
  unfold monthLength
  split_ifs <;> decide

theorem Civil.IsValid.eq_of_text {c c' : Civil} (valid : c.IsValid) (valid' : c'.IsValid)
    (shown : c.year.natAbs ≤ 9999) (shown' : c'.year.natAbs ≤ 9999) (same : c.text = c'.text) :
    c = c' := by
  have day := valid.day_le.trans (monthLength_le _ _)
  have day' := valid'.day_le.trans (monthLength_le _ _)
  have two {m n : Nat} {rest rest' : List Char} (low : m < 100) (low' : n < 100)
      (same : padded 2 m ++ rest = padded 2 n ++ rest') : m = n ∧ rest = rest' :=
    padded_append_inj (by decide) low low' same
  obtain ⟨-, month_le, -, -, hour_lt, minute_lt, second_lt⟩ := valid
  obtain ⟨-, month_le', -, -, hour_lt', minute_lt', second_lt'⟩ := valid'
  obtain ⟨day_eq, same⟩ := two (by omega) (by omega) same
  obtain ⟨month_eq, same⟩ := two (by omega) (by omega) (List.cons.inj same).2
  obtain ⟨year_eq, same⟩ := yearText_append_inj shown shown' (List.cons.inj same).2
  obtain ⟨hour_eq, same⟩ := two (by omega) (by omega) (List.cons.inj same).2
  obtain ⟨minute_eq, same⟩ := two (by omega) (by omega) (List.cons.inj same).2
  have last := congrArg (· ++ []) (List.cons.inj same).2
  obtain ⟨second_eq, -⟩ := two (by omega) (by omega) last
  cases c
  cases c'
  simp only [Civil.mk.injEq]
  exact ⟨year_eq, month_eq, day_eq, hour_eq, minute_eq, second_eq⟩

end Calendar

open Calendar

namespace Pattern

variable {name : List Char} {c : Component} {modifiers : List (String × String)}

theorem itemOf?_of_componentOf? {name : String} (found : componentOf? name modifiers = some c) :
    itemOf? name modifiers [] = some (.component c) := by
  unfold itemOf?
  split
  · contradiction
  · cases found
  · cases found
  · rw [found, Option.map_some]
  · contradiction

theorem readComponent_word (found : componentOf? (lowered name) [] = some c) (depth : Nat)
    (rest : List Token) : readComponent (readNested depth) (.word name :: .closing :: rest) =
      (some (.component c), rest) := by
  have noNested : readNested depth (.closing :: rest) = (none, .closing :: rest) := by
    cases depth <;> rfl
  simp only [readComponent, skipBlank, readModifiers, readWhile, noNested, List.isEmpty_nil,
    List.reverse_nil, Bool.or_true, if_true, itemOf?_of_componentOf? found]

def standardItems : List Item :=
  [.component (.day .zero), .literal ['.'], .component (.month .zero .number), .literal ['.'],
    .component (.year .zero .full false false), .literal [' '], .component (.hour .zero false),
    .literal [':'], .component (.minute .zero), .literal [':'], .component (.second .zero)]

theorem read?_standard : read? EpochFormat.standard.pattern = some standardItems := by
  have scanned : scan EpochFormat.standard.pattern.toList =
      [.opening, .word "day".toList, .closing, .word ['.'],
        .opening, .word "month".toList, .closing, .word ['.'],
        .opening, .word "year".toList, .closing, .blank [' '],
        .opening, .word "hour".toList, .closing, .word [':'],
        .opening, .word "minute".toList, .closing, .word [':'],
        .opening, .word "second".toList, .closing] := by
    decide +kernel
  have day : componentOf? (lowered "day".toList) [] = some (.day .zero) := by decide +kernel
  have month : componentOf? (lowered "month".toList) [] = some (.month .zero .number) := by
    decide +kernel
  have year : componentOf? (lowered "year".toList) [] = some (.year .zero .full false false) := by
    decide +kernel
  have hour : componentOf? (lowered "hour".toList) [] = some (.hour .zero false) := by
    decide +kernel
  have minute : componentOf? (lowered "minute".toList) [] = some (.minute .zero) := by
    decide +kernel
  have second : componentOf? (lowered "second".toList) [] = some (.second .zero) := by
    decide +kernel
  simp only [read?, scanned, List.length_cons, List.length_nil, readOuter, readItem,
    readComponent_word day, readComponent_word month, readComponent_word year,
    readComponent_word hour, readComponent_word minute, readComponent_word second,
    Option.map_some, standardItems]

theorem renderAll_standardItems (m : Moment) : renderAll m standardItems = m.civil.text := by
  have year : renderYear .zero .full false m.date.year = yearText m.date.year := by
    simp only [renderYear, sign, yearText, decide_eq_true_eq]
    rfl
  simp [renderAll, standardItems, Item.render, Component.render, year, Civil.text, Moment.civil,
    number, Calendar.padded]

end Pattern

namespace EpochStyle

def standardStyle (minutes : Int32) (wrongType : String) : EpochStyle :=
  ⟨Pattern.standardItems, 60 * minutes.toInt, wrongType⟩

/-- The second of an instant on a clock some minutes ahead, the rest of the second left out. -/
def secondOf (minutes : Int32) (millis : Int64) : Int :=
  (millis.toInt + 60000 * minutes.toInt) / 1000

variable {f : EpochFormat} {millis millis' : Int64} {minutes minutes' : Int32}
  {wrongType wrongType' : String}

theorem natAbs_offsetSeconds_le_iff (minutes : Int32) :
    (offsetSeconds minutes).natAbs ≤ offsetLimit ↔ (60 * minutes.toInt).natAbs ≤ offsetLimit := by
  unfold offsetSeconds offsetLimit
  rw [Int32.toInt_minValue, Int32.toInt_maxValue]
  omega

theorem offsetSeconds_eq (inside : (60 * minutes.toInt).natAbs ≤ offsetLimit) :
    offsetSeconds minutes = 60 * minutes.toInt := by
  unfold offsetSeconds offsetLimit at *
  rw [Int32.toInt_minValue, Int32.toInt_maxValue]
  omega

theorem ofFormat_standard (standard : f.pattern = EpochFormat.standard.pattern) :
    ofFormat f =
      if (60 * f.offsetMinutes.toInt).natAbs ≤ offsetLimit then
        .ok (standardStyle f.offsetMinutes f.wrongType)
      else .error (.offsetOutOfRange f.offsetMinutes) := by
  rw [ofFormat, standard, Pattern.read?_standard]
  dsimp only
  by_cases inside : (60 * f.offsetMinutes.toInt).natAbs ≤ offsetLimit
  · rw [if_pos ((natAbs_offsetSeconds_le_iff _).mpr inside), if_pos inside, offsetSeconds_eq inside]
    rfl
  · rw [if_neg (mt (natAbs_offsetSeconds_le_iff _).mp inside), if_neg inside]

/-- An instant is shown as the civil time of its second, if the year has four digits. -/
theorem render?_standardStyle (minutes : Int32) (wrongType : String) (millis : Int64) :
    ∃ c : Civil, c.IsValid ∧ c.seconds = secondOf minutes millis ∧
      (standardStyle minutes wrongType).render? millis =
        if c.year.natAbs ≤ 9999 then some (String.ofList c.text) else none := by
  obtain ⟨c, valid, same⟩ := Civil.exists_seconds_eq (secondOf minutes millis)
  have civil_eq : (Moment.ofMillis millis.toInt (60 * minutes.toInt)).civil = c := by
    refine valid.civil_ofMillis ?_
    rw [same, secondOf]
    congr 2
    omega
  refine ⟨c, valid, same, ?_⟩
  simp only [render?, standardStyle, Pattern.renderAll_standardItems, ← civil_eq]
  rfl

example : (standardStyle 0 "").render? (-1) = some "31.12.1969 23:59:59" := by decide +kernel

theorem isSome_render?_iff :
    ((standardStyle minutes wrongType).render? millis).isSome ↔
      (Civil.newYear (-9999)).seconds ≤ secondOf minutes millis ∧
        secondOf minutes millis < (Civil.newYear 10000).seconds := by
  obtain ⟨c, valid, same, shown⟩ := render?_standardStyle minutes wrongType millis
  rw [shown, ← same, valid.newYear_le_iff, ← Int.not_le, valid.newYear_le_iff]
  by_cases four : c.year.natAbs ≤ 9999
  · simp only [four, if_true, Option.isSome_some, true_iff]
    omega
  · simp only [four, if_false, Option.isSome_none, Bool.false_eq_true, false_iff]
    omega

theorem render?_eq_some_iff {text : String} :
    (standardStyle minutes wrongType).render? millis = some text ↔
      ∃ c : Civil, c.IsValid ∧ c.year.natAbs ≤ 9999 ∧ c.seconds = secondOf minutes millis ∧
        text = String.ofList c.text := by
  obtain ⟨c, valid, same, shown⟩ := render?_standardStyle minutes wrongType millis
  rw [shown]
  constructor
  · intro found
    obtain ⟨four, text_eq⟩ := Option.ite_none_right_eq_some.mp found
    exact ⟨c, valid, four, same, (Option.some.inj text_eq).symm⟩
  · rintro ⟨c', valid', four, same', rfl⟩
    obtain rfl := valid.eq_of_seconds valid' (same.trans same'.symm)
    rw [if_pos four]

theorem render?_congr (same : secondOf minutes millis = secondOf minutes' millis') :
    (standardStyle minutes wrongType).render? millis =
      (standardStyle minutes' wrongType').render? millis' := by
  obtain ⟨c, valid, second, shown⟩ := render?_standardStyle minutes wrongType millis
  obtain ⟨c', valid', second', shown'⟩ := render?_standardStyle minutes' wrongType' millis'
  obtain rfl := valid.eq_of_seconds valid' (second.trans (same.trans second'.symm))
  rw [shown, shown']

theorem secondOf_eq_of_render? {text : String}
    (shown : (standardStyle minutes wrongType).render? millis = some text)
    (shown' : (standardStyle minutes' wrongType').render? millis' = some text) :
    secondOf minutes millis = secondOf minutes' millis' := by
  obtain ⟨c, valid, four, same, rfl⟩ := render?_eq_some_iff.mp shown
  obtain ⟨c', valid', four', same', text_eq⟩ := render?_eq_some_iff.mp shown'
  obtain rfl := valid.eq_of_text valid' four four' (String.ofList_injective text_eq)
  rw [← same, ← same']

end EpochStyle

end HeapLens
