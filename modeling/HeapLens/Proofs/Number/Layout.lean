import HeapLens.Number.Layout
import HeapLens.Proofs.Json.Scanning

set_option autoImplicit false

namespace HeapLens.Number

variable {layout : Layout} {d e : Decimal} {f g : Format} {v w : Value} {c : Char}
  {text rest text' rest' : List Char}

theorem takeWhile_digits (digits : ∀ c ∈ text, c.isDigit = true)
    (ends : ∀ c, rest.head? = some c → c.isDigit = false) :
    (text ++ rest).takeWhile Char.isDigit = text := by
  rw [List.takeWhile_append_of_pos digits]
  cases rest with
  | nil => simp
  | cons c rest => simp [ends c rfl]

theorem append_digits_inj (digits : ∀ c ∈ text, c.isDigit = true)
    (digits' : ∀ c ∈ text', c.isDigit = true)
    (ends : ∀ c, rest.head? = some c → c.isDigit = false)
    (ends' : ∀ c, rest'.head? = some c → c.isDigit = false) :
    text ++ rest = text' ++ rest' ↔ text = text' ∧ rest = rest' := by
  refine ⟨fun eq => ?_, fun ⟨same, same'⟩ => by rw [same, same']⟩
  have same : text = text' := by
    rw [← takeWhile_digits digits ends, eq, takeWhile_digits digits' ends']
  subst same
  exact ⟨rfl, List.append_cancel_left eq⟩

namespace Decimal

def power (d : Decimal) : Int := d.exponent + (Text.decimal d.digits).length - 1

def places (d : Decimal) : Nat := (-d.exponent).toNat

def spread (d : Decimal) : List Char :=
  List.replicate (d.places + 1 - (Text.decimal d.digits).length) '0' ++ Text.decimal d.digits ++
    List.replicate d.exponent.toNat '0'

def whole (d : Decimal) : List Char := d.spread.take (d.spread.length - d.places)

def fraction (d : Decimal) : List Char := d.spread.drop (d.spread.length - d.places)

def tail (d : Decimal) (wholeTail : List Char) : List Char :=
  if d.fraction = [] then wholeTail else '.' :: d.fraction

theorem isDigit_of_mem_spread (mem : c ∈ d.spread) : c.isDigit = true := by
  have zero {n : Nat} (mem : c ∈ List.replicate n '0') : c.isDigit = true := by
    rw [List.eq_of_mem_replicate mem]
    rfl
  rcases List.mem_append.mp mem with mem | mem
  · rcases List.mem_append.mp mem with mem | mem
    · exact zero mem
    · exact Text.isDigit_of_mem_decimal mem
  · exact zero mem

theorem places_lt_length_spread (d : Decimal) : d.places < d.spread.length := by
  simp only [spread, List.length_append, List.length_replicate]
  omega

theorem isDigit_of_mem_whole (mem : c ∈ d.whole) : c.isDigit = true :=
  isDigit_of_mem_spread (List.mem_of_mem_take mem)

theorem isDigit_of_mem_fraction (mem : c ∈ d.fraction) : c.isDigit = true :=
  isDigit_of_mem_spread (List.mem_of_mem_drop mem)

theorem whole_ne_nil : d.whole ≠ [] := by
  have few := d.places_lt_length_spread
  rw [← List.length_pos_iff, whole, List.length_take]
  omega

theorem length_fraction (d : Decimal) : d.fraction.length = d.places := by
  have few := d.places_lt_length_spread
  rw [fraction, List.length_drop]
  omega

theorem fraction_eq_nil_iff : d.fraction = [] ↔ 0 ≤ d.exponent := by
  rw [← List.length_eq_zero_iff, length_fraction, places]
  omega

theorem not_isDigit_of_head?_tail {wholeTail : List Char}
    (other : ∀ c, wholeTail.head? = some c → c.isDigit = false) (c : Char)
    (first : (d.tail wholeTail).head? = some c) : c.isDigit = false := by
  rw [tail] at first
  split_ifs at first
  · exact other c first
  · rw [← Option.some.inj first]
    rfl

theorem tail_nil_eq_iff : d.tail [] = e.tail ['.', '0'] ↔
    d.fraction = if e.fraction = [] then ['0'] else e.fraction := by
  have tail_eq : e.tail ['.', '0'] = '.' :: if e.fraction = [] then ['0'] else e.fraction := by
    rw [tail]
    split_ifs <;> rfl
  rw [tail_eq, tail]
  by_cases empty : d.fraction = []
  · have other : (if e.fraction = [] then ['0'] else e.fraction) ≠ [] := by
      split_ifs with empty'
      · simp
      · exact empty'
    rw [if_pos empty, empty]
    exact iff_of_false (by simp) other.symm
  · rw [if_neg empty, List.cons_inj_right]

def WrittenAs (d e : Decimal) : Prop :=
  -4 ≤ e.power ∧ e.power < 16 ∧ d.whole = e.whole ∧
    d.fraction = if e.fraction = [] then ['0'] else e.fraction

instance (d e : Decimal) : Decidable (d.WrittenAs e) :=
  inferInstanceAs (Decidable (_ ∧ _ ∧ _ ∧ _))

theorem writtenAs_self_iff :
    d.WrittenAs d ↔ -4 ≤ d.power ∧ d.power < 16 ∧ d.exponent < 0 := by
  rw [WrittenAs]
  refine and_congr_right fun _ => and_congr_right fun _ => ?_
  rw [and_iff_right rfl, ← Int.not_le, ← fraction_eq_nil_iff]
  by_cases empty : d.fraction = [] <;> simp [empty]

end Decimal

namespace Layout

theorem point_eq (layout : Layout) (d : Decimal) :
    layout.point (Text.decimal d.digits) d.exponent = d.whole ++ d.tail layout.wholeTail := by
  have positive : 0 < (Text.decimal d.digits).length := List.length_pos_iff.mpr Nat.toDigits_ne_nil
  by_cases natural : 0 ≤ d.exponent
  · have none_behind : d.places = 0 := by
      unfold Decimal.places
      omega
    have unpadded : 0 + 1 - (Text.decimal d.digits).length = 0 := by omega
    rw [point, if_pos natural, Decimal.tail, if_pos (Decimal.fraction_eq_nil_iff.mpr natural),
      Decimal.whole, none_behind, Nat.sub_zero, List.take_length, Decimal.spread, none_behind,
      unpadded]
    rfl
  · have nonempty : d.fraction ≠ [] := fun empty =>
      natural (Decimal.fraction_eq_nil_iff.mp empty)
    have none_after : d.exponent.toNat = 0 := by omega
    rw [point, if_neg natural, Decimal.tail, if_neg nonempty]
    change (if d.places < _ then _ else _) = _
    by_cases inside : d.places < (Text.decimal d.digits).length
    · have spread_eq : d.spread = Text.decimal d.digits := by
        have unpadded : d.places + 1 - (Text.decimal d.digits).length = 0 := by omega
        simp [Decimal.spread, none_after, unpadded]
      rw [if_pos inside, Decimal.whole, Decimal.fraction, spread_eq]
      rfl
    · have spread_eq : d.spread =
          '0' :: (List.replicate (d.places - (Text.decimal d.digits).length) '0' ++
            Text.decimal d.digits) := by
        have padded : d.places + 1 - (Text.decimal d.digits).length =
            d.places - (Text.decimal d.digits).length + 1 := by omega
        simp [Decimal.spread, none_after, padded, List.replicate_succ]
      have one : d.spread.length - d.places = 1 := by
        simp only [spread_eq, List.length_cons, List.length_append, List.length_replicate]
        omega
      rw [if_neg inside, Decimal.whole, Decimal.fraction, one, spread_eq]
      rfl

theorem decimal_plain (d : Decimal) : plain.decimal d = d.whole ++ d.tail [] :=
  plain.point_eq d

theorem decimal_diagnostic (d : Decimal) :
    diagnostic.decimal d =
      if -4 ≤ d.power ∧ d.power < 16 then d.whole ++ d.tail ['.', '0']
      else diagnostic.scientific (Text.decimal d.digits) d.power := by
  have range : diagnostic.positional d.power = true ↔ -4 ≤ d.power ∧ d.power < 16 := by
    simp [diagnostic]
  change (if diagnostic.positional d.power = true then
    diagnostic.point (Text.decimal d.digits) d.exponent else _) = _
  rw [point_eq]
  exact if_congr range rfl rfl

theorem decimal_plain_ne_scientific (d : Decimal) (digits : List Char) (power : Int) :
    plain.decimal d ≠ layout.scientific digits power := by
  intro eq
  have marked : 'e' ∈ layout.scientific digits power := by simp [scientific]
  rw [← eq, decimal_plain, List.mem_append, Decimal.tail] at marked
  rcases marked with digit | digit
  · exact absurd (Decimal.isDigit_of_mem_whole digit) (by decide)
  · split_ifs at digit
    · cases digit
    · rcases List.mem_cons.mp digit with point | digit
      · exact absurd point (by decide)
      · exact absurd (Decimal.isDigit_of_mem_fraction digit) (by decide)

theorem decimal_plain_eq_diagnostic_iff : plain.decimal d = diagnostic.decimal e ↔
    d.WrittenAs e := by
  rw [decimal_diagnostic, Decimal.WrittenAs, ← and_assoc]
  by_cases range : -4 ≤ e.power ∧ e.power < 16
  · rw [if_pos range, decimal_plain, append_digits_inj (fun _ => Decimal.isDigit_of_mem_whole)
      (fun _ => Decimal.isDigit_of_mem_whole) (Decimal.not_isDigit_of_head?_tail (by simp))
      (Decimal.not_isDigit_of_head?_tail (by simp)), Decimal.tail_nil_eq_iff]
    exact (and_iff_right range).symm
  · rw [if_neg range]
    exact iff_of_false (decimal_plain_ne_scientific d _ _) fun written => range written.1

theorem exists_scientific_eq_cons (layout : Layout) (c : Char) (rest : List Char) (power : Int) :
    ∃ more, layout.scientific (c :: rest) power = c :: more := by
  cases rest <;> exact ⟨_, rfl⟩

theorem decimal_ne_cons (layout : Layout) (d : Decimal) (other : c.isDigit = false) :
    layout.decimal d ≠ c :: rest := by
  have differs {first : Char} {more : List Char} (digit : first.isDigit = true) :
      first :: more ≠ c :: rest := by
    intro eq
    rw [(List.cons.inj eq).1, other] at digit
    cases digit
  change (if layout.positional d.power = true then
    layout.point (Text.decimal d.digits) d.exponent
    else layout.scientific (Text.decimal d.digits) d.power) ≠ _
  split_ifs
  · obtain ⟨first, more, eq⟩ := List.exists_cons_of_ne_nil (Decimal.whole_ne_nil (d := d))
    rw [point_eq, eq]
    exact differs (Decimal.isDigit_of_mem_whole (d := d) (by simp [eq]))
  · obtain ⟨first, more, eq, digit⟩ := Text.decimal_eq_cons d.digits
    obtain ⟨more, more_eq⟩ := layout.exists_scientific_eq_cons first more d.power
    rw [eq, more_eq]
    exact differs digit

end Layout

def Format.written (f : Format) (significand : Nat) (exponent : Int) : Decimal :=
  if significand = 0 then ⟨0, 0⟩ else f.shortest .up significand exponent

namespace Value

def isNegative : Value → Bool
  | .nan => false
  | .infinite negative => negative
  | .finite negative _ _ => negative

/-- Whether the plain text of one value is the diagnostic text of the other. -/
def WrittenAs (f : Format) (v : Value) (g : Format) (w : Value) : Prop :=
  match v, w with
  | .nan, .nan => True
  | .infinite negative, .infinite negative' => negative = negative'
  | .finite negative m q, .finite negative' m' q' =>
    negative = negative' ∧ (f.written m q).WrittenAs (g.written m' q')
  | _, _ => False

instance (f g : Format) : (v w : Value) → Decidable (v.WrittenAs f g w)
  | .nan, .nan => .isTrue trivial
  | .infinite negative, .infinite negative' => inferInstanceAs (Decidable (negative = negative'))
  | .finite .., .finite .. => inferInstanceAs (Decidable (_ ∧ _))
  | .nan, .infinite _ | .nan, .finite .. | .infinite _, .nan | .infinite _, .finite ..
  | .finite .., .nan | .finite .., .infinite _ => .isFalse id

/-- Whether a value has one text: a number needs a fraction and no exponent for that. -/
def HasOneText (f : Format) : Value → Prop
  | .finite _ m q =>
    m ≠ 0 ∧ -4 ≤ (f.shortest .up m q).power ∧ (f.shortest .up m q).power < 16 ∧
      (f.shortest .up m q).exponent < 0
  | _ => True

instance (f : Format) : (v : Value) → Decidable (v.HasOneText f)
  | .finite .. => inferInstanceAs (Decidable (_ ∧ _ ∧ _ ∧ _))
  | .nan | .infinite _ => .isTrue trivial

theorem writtenAs_self_iff : v.WrittenAs f f v ↔ v.HasOneText f := by
  cases v with
  | finite negative m q =>
    change negative = negative ∧ _ ↔ _
    rw [and_iff_right rfl, Decimal.writtenAs_self_iff, HasOneText, Format.written]
    by_cases zero : m = 0
    · simp [zero]
    · simp [zero]
  | _ => simp [WrittenAs, HasOneText]

end Value

namespace Layout

def magnitude (layout : Layout) (f : Format) : Value → List Char
  | .nan => ['N', 'a', 'N']
  | .infinite _ => ['i', 'n', 'f']
  | .finite _ m q => layout.decimal (f.written m q)

theorem head?_magnitude (layout : Layout) (f : Format) (v : Value) :
    (layout.magnitude f v).head? ≠ some '-' := by
  cases v with
  | finite negative m q =>
    intro first
    obtain ⟨rest, eq⟩ := List.head?_eq_some_iff.mp first
    exact layout.decimal_ne_cons _ rfl eq
  | _ => simp [magnitude]

theorem render_eq (whole : layout.positional 0 = true) (up : layout.tie = .up) (f : Format)
    (v : Value) : layout.render f v =
      String.ofList ((if v.isNegative then ['-'] else []) ++ layout.magnitude f v) := by
  cases v with
  | nan => rfl
  | infinite negative => cases negative <;> rfl
  | finite negative m q =>
    have zero : layout.decimal ⟨0, 0⟩ = '0' :: layout.wholeTail := by
      change (if layout.positional 0 = true then _ else _) = _
      rw [if_pos whole]
      rfl
    refine congrArg (fun body => String.ofList ((if negative then ['-'] else []) ++ body)) ?_
    rw [magnitude, Format.written, up]
    split_ifs
    · exact zero.symm
    · rfl

theorem sign_append_inj {negative negative' : Bool} (unsigned : text.head? ≠ some '-')
    (unsigned' : text'.head? ≠ some '-') :
    (if negative then ['-'] else []) ++ text = (if negative' then ['-'] else []) ++ text' ↔
      negative = negative' ∧ text = text' := by
  cases negative <;> cases negative'
  · simp
  · simp only [Bool.false_eq_true, if_false, if_true, false_and, iff_false]
    rintro rfl
    exact unsigned rfl
  · simp only [Bool.false_eq_true, if_false, if_true, false_and, iff_false, reduceCtorEq]
    rintro rfl
    exact unsigned' rfl
  · simp

/-- In running text a value looks as another one in diagnostics in these cases only. -/
theorem render_plain_eq_diagnostic_iff :
    plain.render f v = diagnostic.render g w ↔ v.WrittenAs f g w := by
  rw [render_eq rfl rfl, render_eq rfl rfl, String.ofList_inj,
    sign_append_inj (plain.head?_magnitude f v) (diagnostic.head?_magnitude g w)]
  have plain_number (d : Decimal) {c : Char} {rest : List Char} (other : c.isDigit = false) :
      plain.decimal d ≠ c :: rest := plain.decimal_ne_cons d other
  have diagnostic_number (d : Decimal) {c : Char} {rest : List Char} (other : c.isDigit = false) :
      c :: rest ≠ diagnostic.decimal d := (diagnostic.decimal_ne_cons d other).symm
  cases v with
  | nan =>
    cases w with
    | nan => simp [Value.isNegative, magnitude, Value.WrittenAs]
    | infinite negative => simp [magnitude, Value.WrittenAs]
    | finite negative m q => simp [magnitude, Value.WrittenAs, diagnostic_number]
  | infinite negative =>
    cases w with
    | nan => simp [magnitude, Value.WrittenAs]
    | infinite negative' => simp [Value.isNegative, magnitude, Value.WrittenAs]
    | finite negative' m q => simp [magnitude, Value.WrittenAs, diagnostic_number]
  | finite negative m q =>
    cases w with
    | nan => simp [magnitude, Value.WrittenAs, plain_number]
    | infinite negative' => simp [magnitude, Value.WrittenAs, plain_number]
    | finite negative' m' q' =>
      exact and_congr_right fun _ => decimal_plain_eq_diagnostic_iff

end Layout

end HeapLens.Number
