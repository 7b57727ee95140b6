import HeapLens.Proofs.Query.Calls
import HeapLens.Proofs.Text.Numeral

set_option autoImplicit false

namespace HeapLens

namespace Text

/-- A literal without a sign, and the number that it denotes. -/
inductive Unsigned : List Char → Nat → Prop
  | hexadecimal {mark digits : List Char} {n : Nat} : mark ∈ [['0', 'x'], ['0', 'X'], ['#']] →
    IsNumeral 16 digits n → Unsigned (mark ++ digits) n
  | octal {digits : List Char} {n : Nat} : IsNumeral 8 digits n → Unsigned ('0' :: digits) n
  | decimal {digits : List Char} {n : Nat} : IsNumeral 10 digits n →
    ¬(digits.head? = some '0' ∧ 1 < digits.length) → Unsigned digits n

/-- A literal, and the integer that it denotes. -/
def Literal : List Char → Int → Prop := Signed Unsigned

variable {text digits : List Char} {n : Nat} {v : Int64}

theorem not_isNumeral_of_head {base : Nat} {c : Char} {rest : List Char} (small : base ≤ 16)
    (other : digitValue? base c = none) : ¬IsNumeral base (c :: rest) n := by
  rintro ⟨-, values, are_digits, -⟩
  cases are_digits with
  | cons is_digit =>
    rw [(digitValue?_eq_some_iff small).mpr is_digit] at other
    cases other

theorem unsigned_iff :
    Unsigned text n ↔
      (∃ digits, (text = '0' :: 'x' :: digits ∨ text = '0' :: 'X' :: digits ∨
        text = '#' :: digits) ∧ IsNumeral 16 digits n) ∨
      (∃ digits, text = '0' :: digits ∧ IsNumeral 8 digits n) ∨
      (IsNumeral 10 text n ∧ ¬(text.head? = some '0' ∧ 1 < text.length)) := by
  constructor
  · rintro (⟨mark, h⟩ | h | ⟨h, noZero⟩)
    · simp only [List.mem_cons, List.not_mem_nil, or_false] at mark
      rcases mark with rfl | rfl | rfl <;> exact .inl ⟨_, by simp, h⟩
    · exact .inr (.inl ⟨_, rfl, h⟩)
    · exact .inr (.inr ⟨h, noZero⟩)
  · rintro (⟨digits, rfl | rfl | rfl, h⟩ | ⟨digits, rfl, h⟩ | ⟨h, noZero⟩)
    · exact @Unsigned.hexadecimal ['0', 'x'] _ _ (by simp) h
    · exact @Unsigned.hexadecimal ['0', 'X'] _ _ (by simp) h
    · exact @Unsigned.hexadecimal ['#'] _ _ (by simp) h
    · exact .octal h
    · exact .decimal h noZero

/-- How a literal begins decides its base, and what of it are the digits. -/
theorem unsigned_iff_isNumeral :
    Unsigned text n ↔ IsNumeral (literalDigits text).1 (literalDigits text).2 n := by
  have octal_x {rest : List Char} : ¬IsNumeral 8 ('x' :: rest) n :=
    not_isNumeral_of_head (by decide) rfl
  have octal_X {rest : List Char} : ¬IsNumeral 8 ('X' :: rest) n :=
    not_isNumeral_of_head (by decide) rfl
  have decimal_mark {rest : List Char} : ¬IsNumeral 10 ('#' :: rest) n :=
    not_isNumeral_of_head (by decide) rfl
  have octal_nil : ¬IsNumeral 8 [] n := fun h => h.1 rfl
  rw [unsigned_iff]
  unfold literalDigits
  split
  · simp [octal_x]
  · simp [octal_X]
  · simp [decimal_mark]
  · rename_i first rest small large
    have notSmall : first ≠ 'x' := small
    have notLarge : first ≠ 'X' := large
    simp [notSmall, notLarge]
  · rename_i small large mark zero
    have hexadecimal : ¬∃ digits, (text = '0' :: 'x' :: digits ∨ text = '0' :: 'X' :: digits ∨
        text = '#' :: digits) ∧ IsNumeral 16 digits n := by
      rintro ⟨digits, eq | eq | eq, -⟩
      · exact small digits eq
      · exact large digits eq
      · exact mark digits eq
    have octal : ¬∃ digits, text = '0' :: digits ∧ IsNumeral 8 digits n := by
      rintro ⟨rest, rfl, h⟩
      cases rest with
      | nil => exact octal_nil h
      | cons first rest => exact zero first rest rfl
    have single : ¬(text.head? = some '0' ∧ 1 < text.length) := by
      rintro ⟨head, long⟩
      match text with
      | [_] => simp at long
      | _ :: first :: rest =>
        obtain rfl := Option.some.inj head
        exact zero first rest rfl
    simp [hexadecimal, octal, single]

theorem Unsigned.head?_ne_sign (h : Unsigned text n) :
    text.head? ≠ some '-' ∧ text.head? ≠ some '+' := by
  rcases unsigned_iff.mp h with ⟨_, rfl | rfl | rfl, -⟩ | ⟨_, rfl, -⟩ | ⟨decimal, -⟩
  · exact ⟨by simp, by simp⟩
  · exact ⟨by simp, by simp⟩
  · exact ⟨by simp, by simp⟩
  · exact ⟨by simp, by simp⟩
  · exact decimal.head?_ne_sign (by decide)

theorem literalMagnitude?_eq_some_iff :
    literalMagnitude? text = some n ↔ Unsigned text n ∧ n ≤ UInt64.size - 1 := by
  have small : (literalDigits text).1 ≤ 16 := by
    unfold literalDigits
    split <;> simp
  rw [unsigned_iff_isNumeral, ← toOption_readDigits small]
  rfl

theorem limit_lt_size : int64Limit < UInt64.size - 1 := by decide

theorem negative_eq_some_iff :
    ((literalMagnitude? text).bind fun n =>
      if n ≤ int64Limit then some (Int64.ofInt (-(n : Int))) else none) = some v ↔
      ∃ n, Unsigned text n ∧ v.toInt = -n := by
  have limit := limit_lt_size
  simp only [Option.bind_eq_some_iff, literalMagnitude?_eq_some_iff, Option.ite_none_right_eq_some,
    Option.some.injEq, ofInt_neg_eq_iff]
  refine exists_congr fun n => ⟨fun h => ⟨h.1.1, h.2⟩, fun h => ⟨⟨h.1, ?_⟩, h.2⟩⟩
  have low := (ofInt_neg_eq_iff.mpr h.2).1
  omega

theorem nonnegative_eq_some_iff :
    ((literalMagnitude? text).bind fun n =>
      if n < int64Limit then some (Int64.ofInt n) else none) = some v ↔
      ∃ n : Nat, Unsigned text n ∧ v.toInt = n := by
  have limit := limit_lt_size
  simp only [Option.bind_eq_some_iff, literalMagnitude?_eq_some_iff, Option.ite_none_right_eq_some,
    Option.some.injEq, ofInt_eq_iff]
  refine exists_congr fun n => ⟨fun h => ⟨h.1.1, h.2⟩, fun h => ⟨⟨h.1, ?_⟩, h.2⟩⟩
  have low := (ofInt_eq_iff.mpr h.2).1
  omega

theorem readLiteral?_eq_some_iff : readLiteral? text = some v ↔ Literal text v.toInt := by
  have unsigned : ∀ text n, Unsigned text n → text.head? ≠ some '-' ∧ text.head? ≠ some '+' :=
    fun text n => Unsigned.head?_ne_sign
  unfold readLiteral? Literal
  split
  rename_i negative rest eq
  split at eq
  · cases eq
    rw [signed_minus_iff unsigned]
    exact negative_eq_some_iff
  · cases eq
    rw [signed_plus_iff unsigned]
    exact nonnegative_eq_some_iff
  · rename_i minus plus
    cases eq
    rw [signed_bare_iff (head?_ne_of_ne_cons minus) (head?_ne_of_ne_cons plus)]
    exact nonnegative_eq_some_iff

example : readLiteral? ['-', '#', '8', '0', '0', '0', '0', '0', '0', '0', '0', '0', '0', '0', '0',
    '0', '0', '0'] = some Int64.minValue ∧
    readLiteral? ['#', '8', '0', '0', '0', '0', '0', '0', '0', '0', '0', '0', '0', '0', '0', '0',
      '0', '0'] = none := by
  decide +kernel

end Text

open Text

/--
A text is read as an integer exactly if it is a literal that denotes this integer. It is refused,
and the error carries it, exactly if it is no literal of an integer of 64 bits.
-/
theorem literals_are_read (l : Library) (session : Session) (text : String) :
    (∀ v : Int64, l.invoke session "toLong" [.text text] = .ok (.integer v) ↔
        Literal text.toList v.toInt) ∧
      (l.invoke session "toLong" [.text text] = .error (.invalidInteger text) ↔
        ¬∃ z : Int, Literal text.toList z ∧
          Int64.minValue.toInt ≤ z ∧ z ≤ Int64.maxValue.toInt) := by
  have call : l.invoke session "toLong" [.text text] = (readInteger text).map .integer :=
    Library.invoke_of_find? (f := .readInteger) (by decide +kernel)
  rw [call, readInteger]
  constructor
  · intro v
    rw [← readLiteral?_eq_some_iff]
    cases readLiteral? text.toList <;> simp [Except.map]
  · cases found : readLiteral? text.toList with
    | some v =>
      have literal := readLiteral?_eq_some_iff.mp found
      constructor
      · exact nofun
      · intro none_in_range
        exact absurd ⟨v.toInt, literal, v.minValue_le_toInt, v.toInt_le⟩ none_in_range
    | none =>
      refine ⟨fun _ => ?_, fun _ => rfl⟩
      rintro ⟨z, literal, least, greatest⟩
      have again : (Int64.ofInt z).toInt = z := by
        rw [Int64.toInt_minValue] at least
        rw [Int64.toInt_maxValue] at greatest
        exact Int64.toInt_ofInt_of_le least (by omega)
      have read := readLiteral?_eq_some_iff.mpr (again.symm ▸ literal)
      rw [found] at read
      cases read

end HeapLens
