import HeapLens.Text.Numeral
import Mathlib.Data.List.Forall2
import Mathlib.Data.Nat.Digits.Defs

set_option autoImplicit false

namespace HeapLens.Text

variable {base bound value n : Nat} {c : Char} {digits text : List Char} {v : Int64} {z : Int}

def IsDigit (base : Nat) (c : Char) (value : Nat) : Prop :=
  value < base ∧ (c = Nat.digitChar value ∨ c = (Nat.digitChar value).toUpper)

/-- Whether a text has one digit at least and denotes a number by its digits, the highest first. -/
def IsNumeral (base : Nat) (text : List Char) (n : Nat) : Prop :=
  text ≠ [] ∧ ∃ values, List.Forall₂ (IsDigit base) text values ∧
    n = Nat.ofDigits base values.reverse

/-- The integers that texts denote if a sign may stand before what denotes a natural number. -/
inductive Signed (denotes : List Char → Nat → Prop) : List Char → Int → Prop
  | bare {text : List Char} {n : Nat} : denotes text n → Signed denotes text n
  | plus {text : List Char} {n : Nat} : denotes text n → Signed denotes ('+' :: text) n
  | minus {text : List Char} {n : Nat} : denotes text n → Signed denotes ('-' :: text) (-n)

theorem ascii_of_digitValue? (found : digitValue? base c = some value) : c.toNat < 128 := by
  obtain ⟨found, -⟩ := Option.filter_eq_some_iff.mp found
  split_ifs at found with decimal small large
  · exact Nat.lt_of_le_of_lt (Char.le_def.mp decimal.2) (by decide)
  · exact Nat.lt_of_le_of_lt (Char.le_def.mp small.2) (by decide)
  · exact Nat.lt_of_le_of_lt (Char.le_def.mp large.2) (by decide)

theorem digitValue?_sixteen : digitValue? 16 c = some value ↔ IsDigit 16 c value := by
  constructor
  · intro found
    have low : value < 16 := of_decide_eq_true (Option.filter_eq_some_iff.mp found).2
    have all : ∀ code < 128, ∀ d < 16, digitValue? 16 (Char.ofNat code) = some d →
        Char.ofNat code = Nat.digitChar d ∨ Char.ofNat code = (Nat.digitChar d).toUpper := by
      decide +kernel
    have same := all c.toNat (ascii_of_digitValue? found) value low
    rw [Char.ofNat_toNat] at same
    exact ⟨low, same found⟩
  · rintro ⟨low, is_digit⟩
    have all : ∀ d < 16, digitValue? 16 (Nat.digitChar d) = some d ∧
        digitValue? 16 (Nat.digitChar d).toUpper = some d := by decide
    rcases is_digit with rfl | rfl
    · exact (all value low).1
    · exact (all value low).2

theorem digitValue?_eq_some_iff (small : base ≤ 16) :
    digitValue? base c = some value ↔ IsDigit base c value := by
  have fewer : digitValue? base c = some value ↔ digitValue? 16 c = some value ∧ value < base := by
    simp only [digitValue?, Option.filter_eq_some_iff, decide_eq_true_eq]
    constructor
    · exact fun h => ⟨⟨h.1, by omega⟩, h.2⟩
    · exact fun h => ⟨h.1.1, h.2⟩
  rw [fewer, digitValue?_sixteen]
  constructor
  · exact fun h => ⟨h.2, h.1.2⟩
  · exact fun h => ⟨⟨by have := h.1; omega, h.2⟩, h.1⟩

theorem not_isDigit_of_sign (small : base ≤ 16) (sign : c = '-' ∨ c = '+') :
    ¬IsDigit base c value := by
  rw [← digitValue?_eq_some_iff small]
  rcases sign with rfl | rfl <;> exact nofun

theorem le_foldl_digits (positive : 0 < base) (values : List Nat) (value : Nat) :
    value ≤ values.foldl (fun n d => n * base + d) value := by
  induction values generalizing value with
  | nil => exact Nat.le_refl _
  | cons d values ih =>
    have grown : value ≤ value * base := Nat.le_mul_of_pos_right _ positive
    exact (grown.trans (Nat.le_add_right _ d)).trans (ih _)

/-- The values that have been read never pass the bound, because they only grow. -/
theorem readDigits_eq_ok_iff (small : base ≤ 16) (low : value ≤ bound) :
    readDigits base bound value digits = .ok n ↔
      ∃ values, List.Forall₂ (IsDigit base) digits values ∧
        values.foldl (fun n d => n * base + d) value = n ∧ n ≤ bound := by
  induction digits generalizing value with
  | nil =>
    rw [readDigits, Except.ok.injEq]
    constructor
    · rintro rfl
      exact ⟨[], .nil, rfl, low⟩
    · rintro ⟨values, digits, eq, -⟩
      cases digits
      exact eq
  | cons c digits ih =>
    rw [readDigits]
    constructor
    · intro read
      cases found : digitValue? base c with
      | none => simp [found] at read
      | some d =>
        by_cases large : bound < value * base + d
        · simp [found, large] at read
        · simp only [found, large, if_false] at read
          obtain ⟨values, are_digits, eq, fits⟩ := (ih (by omega)).mp read
          exact ⟨d :: values, .cons ((digitValue?_eq_some_iff small).mp found) are_digits, eq, fits⟩
    · rintro ⟨values, are_digits, eq, fits⟩
      cases are_digits with
      | @cons _ d _ values is_digit are_digits =>
        have positive : 0 < base := Nat.lt_of_le_of_lt (Nat.zero_le d) is_digit.1
        have next : value * base + d ≤ n := eq ▸ le_foldl_digits positive values _
        rw [(digitValue?_eq_some_iff small).mpr is_digit]
        simp only [Nat.not_lt.mpr (next.trans fits), if_false]
        exact (ih (next.trans fits)).mpr ⟨values, are_digits, eq, fits⟩

theorem ofDigits_reverse (base : Nat) (values : List Nat) :
    Nat.ofDigits base values.reverse = values.foldl (fun n d => n * base + d) 0 := by
  rw [Nat.ofDigits_eq_foldr, List.foldr_reverse]
  simp only [Nat.cast_id, Nat.add_comm, Nat.mul_comm]

theorem readDigits_zero_eq_ok_iff (small : base ≤ 16) (some_digit : digits ≠ []) :
    readDigits base bound 0 digits = .ok n ↔ IsNumeral base digits n ∧ n ≤ bound := by
  rw [readDigits_eq_ok_iff small (Nat.zero_le _)]
  simp only [IsNumeral, ofDigits_reverse]
  constructor
  · rintro ⟨values, are_digits, eq, fits⟩
    exact ⟨⟨some_digit, values, are_digits, eq.symm⟩, fits⟩
  · rintro ⟨⟨-, values, are_digits, eq⟩, fits⟩
    exact ⟨values, are_digits, eq.symm, fits⟩

theorem toOption_readDigits (small : base ≤ 16) :
    (if digits.isEmpty then none else (readDigits base bound 0 digits).toOption) = some n ↔
      IsNumeral base digits n ∧ n ≤ bound := by
  by_cases none : digits = []
  · subst none
    simp [IsNumeral]
  · rw [if_neg (by simpa using none), ← readDigits_zero_eq_ok_iff small none]
    cases readDigits base bound 0 digits <;> simp [Except.toOption]

theorem IsNumeral.head?_ne_sign (small : base ≤ 16) (h : IsNumeral base text n) :
    text.head? ≠ some '-' ∧ text.head? ≠ some '+' := by
  obtain ⟨some_digit, values, are_digits, -⟩ := h
  cases are_digits with
  | nil => exact absurd rfl some_digit
  | cons is_digit _ =>
    constructor <;> rintro ⟨⟩
    · exact not_isDigit_of_sign small (.inl rfl) is_digit
    · exact not_isDigit_of_sign small (.inr rfl) is_digit

theorem head?_ne_of_ne_cons (other : ∀ rest, text = c :: rest → False) : text.head? ≠ some c := by
  cases text with
  | nil => exact nofun
  | cons d rest =>
    rintro ⟨⟩
    exact other rest rfl

section

variable {denotes : List Char → Nat → Prop} {rest : List Char}
  (unsigned : ∀ text n, denotes text n → text.head? ≠ some '-' ∧ text.head? ≠ some '+')

include unsigned

theorem signed_minus_iff : Signed denotes ('-' :: rest) z ↔ ∃ n, denotes rest n ∧ z = -n := by
  constructor
  · rintro (h | h | h)
    · exact absurd rfl (unsigned _ _ h).1
    · exact ⟨_, h, rfl⟩
  · rintro ⟨n, h, rfl⟩
    exact .minus h

theorem signed_plus_iff : Signed denotes ('+' :: rest) z ↔ ∃ n : Nat, denotes rest n ∧ z = n := by
  constructor
  · rintro (h | h | h)
    · exact absurd rfl (unsigned _ _ h).2
    · exact ⟨_, h, rfl⟩
  · rintro ⟨n, h, rfl⟩
    exact .plus h

end

theorem signed_bare_iff {denotes : List Char → Nat → Prop} (minus : text.head? ≠ some '-')
    (plus : text.head? ≠ some '+') : Signed denotes text z ↔ ∃ n : Nat, denotes text n ∧ z = n := by
  constructor
  · rintro (h | h | h)
    · exact ⟨_, h, rfl⟩
    · exact absurd rfl plus
    · exact absurd rfl minus
  · rintro ⟨n, h, rfl⟩
    exact .bare h

theorem ofInt_eq_iff : n < int64Limit ∧ Int64.ofInt n = v ↔ v.toInt = n := by
  have least := v.le_toInt
  have greatest := v.toInt_lt
  unfold int64Limit
  constructor
  · rintro ⟨low, rfl⟩
    rw [Int64.toInt_ofInt_of_le (by omega) (by omega)]
  · intro eq
    refine ⟨by omega, ?_⟩
    rw [← eq, Int64.ofInt_toInt]

theorem ofInt_neg_eq_iff : n ≤ int64Limit ∧ Int64.ofInt (-(n : Int)) = v ↔ v.toInt = -n := by
  have least := v.le_toInt
  unfold int64Limit
  constructor
  · rintro ⟨low, rfl⟩
    rw [Int64.toInt_ofInt_of_le (by omega) (by omega)]
  · intro eq
    refine ⟨by omega, ?_⟩
    rw [← eq, Int64.ofInt_toInt]

theorem toInt_toInt64 {word : UInt64} (small : word.toNat < 2 ^ 63) :
    word.toInt64.toInt = word.toNat := by
  apply BitVec.toInt_eq_toNat_of_lt
  change 2 * word.toNat < 2 ^ 64
  omega

theorem magnitude?_eq_some_iff :
    magnitude? bound digits = some n ↔ IsNumeral 10 digits n ∧ n ≤ bound :=
  toOption_readDigits (by decide)

theorem readInt64?_eq_some_iff : readInt64? text = some v ↔ Signed (IsNumeral 10) text v.toInt := by
  have unsigned : ∀ text n, IsNumeral 10 text n → text.head? ≠ some '-' ∧ text.head? ≠ some '+' :=
    fun text n => IsNumeral.head?_ne_sign (by decide)
  have low {n : Nat} : n ≤ int64Limit - 1 ↔ n < int64Limit := by
    unfold int64Limit
    omega
  have lifted {o : Option Nat} {f : Int → Int64} :
      (do let n ← o; pure (n : Int)).map f = some v ↔ ∃ n, o = some n ∧ f n = v := by
    cases o <;> simp
  unfold readInt64?
  split
  · rw [signed_minus_iff unsigned, lifted]
    simp only [magnitude?_eq_some_iff, and_assoc, ofInt_neg_eq_iff]
  · rw [signed_plus_iff unsigned, lifted]
    simp only [magnitude?_eq_some_iff, low, and_assoc, ofInt_eq_iff]
  · rename_i minus plus
    rw [signed_bare_iff (head?_ne_of_ne_cons minus) (head?_ne_of_ne_cons plus), lifted]
    simp only [magnitude?_eq_some_iff, low, and_assoc, ofInt_eq_iff]

theorem IsNumeral.append_digit (h : IsNumeral base text n) (is_digit : IsDigit base c value) :
    IsNumeral base (text ++ [c]) (base * n + value) := by
  obtain ⟨-, values, are_digits, eq⟩ := h
  refine ⟨by simp, values ++ [value], List.rel_append are_digits (.cons is_digit .nil), ?_⟩
  rw [List.reverse_append, List.reverse_singleton, List.singleton_append, Nat.ofDigits_cons, ← eq]
  exact Nat.add_comm _ _

theorem isNumeral_toDigits (several : 1 < base) (n : Nat) :
    IsNumeral base (Nat.toDigits base n) n := by
  induction n using Nat.strongRecOn with
  | ind n ih =>
    by_cases small : n < base
    · rw [Nat.toDigits_of_lt_base small]
      exact ⟨List.cons_ne_nil _ _, [n], .cons ⟨small, .inl rfl⟩ .nil, by simp⟩
    · have low : n % base < base := Nat.mod_lt n (Nat.zero_lt_of_lt several)
      have above : IsNumeral base (Nat.toDigits base (n / base)) (n / base) :=
        ih _ (Nat.div_lt_self (by omega) several)
      have whole := above.append_digit (c := Nat.digitChar (n % base)) ⟨low, .inl rfl⟩
      rw [Nat.toDigits_of_base_le several (Nat.le_of_not_lt small)]
      rwa [Nat.div_add_mod] at whole

theorem IsNumeral.exists_isDigit (h : IsNumeral base text n) (mem : c ∈ text) :
    ∃ value, IsDigit base c value := by
  obtain ⟨-, values, are_digits, -⟩ := h
  induction are_digits with
  | nil => cases mem
  | cons is_digit _ ih =>
    cases mem with
    | head => exact ⟨_, is_digit⟩
    | tail _ below => exact ih below

theorem readNat_of_unsigned (some_digit : text ≠ []) (unsigned : text.head? ≠ some '+') :
    readNat base bound text = readDigits base bound 0 text := by
  unfold readNat
  split
  · exact absurd rfl some_digit
  · exact absurd rfl unsigned
  · exact absurd rfl unsigned
  · rfl

theorem readUInt64_toDigits (several : 1 < base) (small : base ≤ 16) (word : UInt64) :
    readUInt64 base (Nat.toDigits base word.toNat) = .ok word := by
  have numeral := isNumeral_toDigits several word.toNat
  have fits : word.toNat ≤ UInt64.size - 1 := Nat.le_sub_one_of_lt word.toNat_lt_size
  have read := (readDigits_zero_eq_ok_iff small numeral.1).mpr ⟨numeral, fits⟩
  rw [readUInt64, readNat_of_unsigned numeral.1 (numeral.head?_ne_sign small).2, read]
  exact congrArg Except.ok (UInt64.ofNat_toNat)

end HeapLens.Text
