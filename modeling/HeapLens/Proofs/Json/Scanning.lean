import HeapLens.Json.Printer
import HeapLens.Json.Tree
import Mathlib.Data.List.TakeWhile

/-!
# How written texts are scanned

The scanner gives back the tokens that were written: a word up to the first character that cannot
belong to it, a quoted text up to its quote, and a mark by itself. An integer is written in a
single way, and the digits that are read denote it again.
-/

set_option autoImplicit false

namespace HeapLens

namespace Text

theorem isDigit_of_mem_decimal {n : Nat} {c : Char} (mem : c ∈ decimal n) : c.isDigit = true :=
  Nat.isDigit_of_mem_toDigits (by decide) (by decide) mem

theorem decimal_eq_cons (n : Nat) : ∃ c rest, decimal n = c :: rest ∧ c.isDigit = true := by
  have nonempty : decimal n ≠ [] := Nat.toDigits_ne_nil
  obtain ⟨c, rest, eq⟩ := List.exists_cons_of_ne_nil nonempty
  have mem : c ∈ decimal n := by simp [eq]
  exact ⟨c, rest, eq, isDigit_of_mem_decimal mem⟩

theorem digitsValue_decimal (n : Nat) : Number.digitsValue 0 (decimal n) = n := by
  have same : Number.digitsValue 0 (decimal n) = Nat.ofDigitChars 10 (decimal n) 0 := by
    simp only [Number.digitsValue, Nat.ofDigitChars, Nat.mul_comm]
  rw [same]
  exact Nat.ofDigitChars_ten_toDigits

theorem eq_zero_of_head?_decimal {n : Nat} (zero : (decimal n).head? = some '0') : n = 0 := by
  induction n using Nat.strongRecOn with
  | ind n ih =>
    by_cases small : n < 10
    · have digits : ∀ d < 10, Nat.digitChar d = '0' → d = 0 := by decide
      rw [decimal, Nat.toDigits_of_lt_base small] at zero
      exact digits n small (Option.some.inj zero)
    · obtain ⟨c, rest, eq, -⟩ := decimal_eq_cons (n / 10)
      have shorter : decimal n = decimal (n / 10) ++ [Nat.digitChar (n % 10)] :=
        Nat.toDigits_of_base_le (by decide) (by omega)
      rw [shorter, eq] at zero
      have := ih (n / 10) (by omega) (by rw [eq]; exact zero)
      omega

end Text

namespace Json

def Numeric.IsInteger : Numeric → Prop
  | .natural _ => True
  | .negative n => n < 0
  | _ => False

theorem Numeral.unsigned?_decimal (negative : Bool) (n : Nat) :
    unsigned? negative (Text.decimal n) = some ⟨negative, Text.decimal n, [], none⟩ := by
  have digits : ∀ c ∈ Text.decimal n, c.isDigit = true := fun c => Text.isDigit_of_mem_decimal
  have whole : (Text.decimal n).takeWhile Char.isDigit = Text.decimal n :=
    List.takeWhile_eq_self_iff.mpr digits
  have nothing : (Text.decimal n).dropWhile Char.isDigit = [] :=
    List.dropWhile_eq_nil_iff.mpr digits
  have nonempty : Text.decimal n ≠ [] := Nat.toDigits_ne_nil
  unfold unsigned?
  split
  · rename_i chars eq
    have zero : n = 0 := Text.eq_zero_of_head?_decimal (by rw [eq]; rfl)
    subst zero
    cases eq
    rfl
  · rw [whole, nothing, if_neg (by simpa using nonempty)]
    rfl

theorem Numeral.ofText?_decimal (n : Nat) :
    ofText? (Text.decimal n) = some ⟨false, Text.decimal n, [], none⟩ := by
  unfold ofText?
  split
  · rename_i chars eq
    have digit : '-'.isDigit = true := Text.isDigit_of_mem_decimal (n := n) (by simp [eq])
    cases digit
  · exact unsigned?_decimal false n

theorem Numeral.value?_natural (n : UInt64) :
    value? ⟨false, Text.decimal n.toNat, [], none⟩ = some (.natural n) := by
  simp [value?, Text.digitsValue_decimal, n.toNat_lt_size]

theorem Numeral.value?_negative {n : Int64} (negative : n < 0) :
    value? ⟨true, Text.decimal n.toInt.natAbs, [], none⟩ = some (.negative n) := by
  have below : n.toInt < 0 := Int64.lt_iff_toInt_lt.mp negative
  have least := n.le_toInt
  have magnitude : 0 < n.toInt.natAbs ∧ n.toInt.natAbs ≤ Text.int64Limit := by
    unfold Text.int64Limit
    omega
  have again : Int64.ofInt (-(n.toInt.natAbs : Int)) = n := by
    rw [show -(n.toInt.natAbs : Int) = n.toInt by omega, Int64.ofInt_toInt]
  unfold value?
  dsimp only
  rw [Text.digitsValue_decimal, again, if_neg (by simp), if_pos (by simpa using magnitude)]

theorem Numeric.render_ne_nil {n : Numeric} (integer : n.IsInteger) : n.render ≠ [] := by
  cases n with
  | natural n => exact Nat.toDigits_ne_nil
  | negative n => exact List.cons_ne_nil _ _
  | double | single => cases integer

theorem Numeric.isWordChar_of_mem_render {n : Numeric} (integer : n.IsInteger) :
    ∀ c ∈ n.render, Token.isWordChar c = true := by
  have word {c : Char} (digit : c.isDigit = true) : Token.isWordChar c = true := by
    simp [Token.isWordChar, Char.isAlphanum, digit]
  cases n with
  | natural n => exact fun c mem => word (Text.isDigit_of_mem_decimal mem)
  | negative n =>
    intro c mem
    rcases List.mem_cons.mp mem with rfl | mem
    · rfl
    · exact word (Text.isDigit_of_mem_decimal mem)
  | double | single => cases integer

namespace Token

theorem ofWord?_of_head? {c : Char} {word : List Char} (first : word.head? = some c)
    (other : c ≠ 'n' ∧ c ≠ 't' ∧ c ≠ 'f') :
    ofWord? word = (Numeral.ofText? word).map fun n => .number n.value? := by
  have differs {name : List Char} {letter : Char} (head : name.head? = some letter)
      (ne : c ≠ letter) : word ≠ name := by
    rintro rfl
    exact ne (Option.some.inj (first.symm.trans head))
  have notNull : word ≠ "null".toList := differs rfl other.1
  have notTrue : word ≠ "true".toList := differs rfl other.2.1
  have notFalse : word ≠ "false".toList := differs rfl other.2.2
  rw [ofWord?, if_neg notNull, if_neg notTrue, if_neg notFalse]

theorem ofWord?_render {n : Numeric} (integer : n.IsInteger) :
    ofWord? n.render = some (.number (some n)) := by
  cases n with
  | natural n =>
    obtain ⟨c, rest, eq, digit⟩ := Text.decimal_eq_cons n.toNat
    have other : c ≠ 'n' ∧ c ≠ 't' ∧ c ≠ 'f' := by
      refine ⟨?_, ?_, ?_⟩ <;>
        · rintro rfl
          cases digit
    change ofWord? (Text.decimal n.toNat) = _
    rw [ofWord?_of_head? (by rw [eq]; rfl) other, Numeral.ofText?_decimal, Option.map_some,
      Numeral.value?_natural]
  | negative n =>
    change ofWord? ('-' :: Text.decimal n.toInt.natAbs) = _
    rw [ofWord?_of_head? rfl (by decide), Numeral.ofText?, Numeral.unsigned?_decimal,
      Option.map_some, Numeral.value?_negative integer]
  | double | single => cases integer

namespace Scanner

def run (s : Scanner) (chars : List Char) : Option (List Token) :=
  (chars.foldlM step s).bind finish

theorem run_cons (s : Scanner) (c : Char) (rest : List Char) :
    s.run (c :: rest) = (s.step c).bind (run · rest) := by
  rw [run, List.foldlM_cons]
  exact Option.bind_assoc _ _ _

end Scanner

open Scanner

def EndsWord (rest : List Char) : Prop := ∀ c ∈ rest.head?, isWordChar c = false

/-- Whether characters are read as tokens, provided that a word may end behind them. -/
def Reads (chars : List Char) (tokens : List Token) : Prop :=
  ∀ before rest, EndsWord rest →
    run ⟨.between, before⟩ (chars ++ rest) = run ⟨.between, tokens.reverse ++ before⟩ rest

theorem scan_of_reads {chars : List Char} {tokens : List Token} (reads : Reads chars tokens) :
    scan chars = some tokens := by
  have read := reads [] [] nofun
  rw [List.append_nil, List.append_nil] at read
  calc scan chars = run ⟨.between, tokens.reverse⟩ [] := read
    _ = some tokens := congrArg some tokens.reverse_reverse

namespace Reads

variable {chars chars' : List Char} {tokens tokens' : List Token}

theorem nil : Reads [] [] := fun _ _ _ => rfl

theorem append (reads : Reads chars tokens) (ends : ∀ rest, EndsWord (chars' ++ rest))
    (reads' : Reads chars' tokens') : Reads (chars ++ chars') (tokens ++ tokens') := by
  intro before rest ends_rest
  rw [List.append_assoc, reads _ _ (ends rest), reads' _ _ ends_rest, List.reverse_append,
    List.append_assoc]

theorem mark {c : Char} {token : Token}
    (special : isSpace c = false ∧ c ≠ '"' ∧ isWordChar c = false)
    (isMark : ofMark? c = some token) (reads : Reads chars tokens) :
    Reads (c :: chars) (token :: tokens) := by
  intro before rest ends
  have entered : step ⟨.between, before⟩ c = some ⟨.between, token :: before⟩ := by
    simp [step, enter, special, isMark]
  rw [List.cons_append, run_cons, entered, Option.bind_some, reads _ _ ends, List.reverse_cons,
    List.append_assoc]
  rfl

theorem run_word (before : List Token) {read left rest : List Char} {token : Token}
    (isWord : ∀ c ∈ left, isWordChar c = true) (ends : EndsWord rest)
    (isToken : ofWord? (read.reverse ++ left) = some token) :
    run ⟨.word read, before⟩ (left ++ rest) = run ⟨.between, token :: before⟩ rest := by
  induction left generalizing read with
  | nil =>
    rw [List.append_nil] at isToken
    cases rest with
    | nil => simp [run, finish, isToken]
    | cons c rest =>
      have ended : step ⟨.word read, before⟩ c = step ⟨.between, token :: before⟩ c := by
        simp [step, ends c rfl, isToken]
      rw [List.nil_append, run_cons, run_cons, ended]
  | cons c left ih =>
    have on : step ⟨.word read, before⟩ c = some ⟨.word (c :: read), before⟩ := by
      simp [step, isWord c List.mem_cons_self]
    rw [List.cons_append, run_cons, on, Option.bind_some]
    exact ih (fun c' mem => isWord c' (List.mem_cons_of_mem _ mem)) (by simpa using isToken)

theorem word {token : Token} (nonempty : chars ≠ []) (isWord : ∀ c ∈ chars, isWordChar c = true)
    (isToken : ofWord? chars = some token) : Reads chars [token] := by
  intro before rest ends
  obtain ⟨c, left, rfl⟩ := List.exists_cons_of_ne_nil nonempty
  have begins : step ⟨.between, before⟩ c = some ⟨.word [c], before⟩ := by
    have first := isWord c List.mem_cons_self
    have space : isSpace c = false := by
      by_contra space
      simp only [isSpace, Bool.not_eq_false, Bool.or_eq_true, beq_iff_eq] at space
      rcases space with ((rfl | rfl) | rfl) | rfl <;> cases first
    have quote : c ≠ '"' := by
      rintro rfl
      cases first
    simp [step, enter, first, space, quote]
  rw [List.cons_append, run_cons, begins, Option.bind_some]
  exact run_word before (fun c' mem => isWord c' (List.mem_cons_of_mem _ mem)) ends isToken

end Reads

def Quoted.clean (chars : List Char) : Quoted := ⟨chars, none, false⟩

/-- The digits of an escape give its code unit. -/
theorem run_unit (q : Quoted) (before : List Token) {missing value : Nat} {digits rest : List Char}
    {values : List Nat} (length : digits.length = missing + 1)
    (read : digits.mapM (Text.digitValue? 16) = some values) :
    run ⟨.unit q missing value, before⟩ (digits ++ rest) =
      run ⟨.quoted (q.pushUnit (UInt16.ofNat (values.foldl (fun v d => v * 16 + d) value))),
        before⟩ rest := by
  induction digits generalizing missing value values with
  | nil => cases length
  | cons c digits ih =>
    rw [List.mapM_cons] at read
    obtain ⟨d, digit, read⟩ := Option.bind_eq_some_iff.mp read
    obtain ⟨ds, rest_read, eq⟩ := Option.bind_eq_some_iff.mp read
    obtain rfl := Option.some.inj eq
    rw [List.cons_append, run_cons]
    cases missing with
    | zero =>
      obtain rfl := List.length_eq_zero_iff.mp (Nat.succ.inj length)
      cases rest_read
      simp [step, digit]
    | succ missing =>
      have on : step ⟨.unit q (missing + 1) value, before⟩ c =
          some ⟨.unit q missing (value * 16 + d), before⟩ := by
        simp [step, digit]
      rw [on, Option.bind_some]
      exact ih (Nat.succ.inj length) rest_read

theorem run_control (before : List Token) (read : List Char) {n : Nat} (control : n < 0x20)
    (rest : List Char) :
    run ⟨.unit (.clean read) 3 0, before⟩ (Text.padLeft 4 '0' (Text.hexadecimal n) ++ rest) =
      run ⟨.quoted (.clean (Char.ofNat n :: read)), before⟩ rest := by
  have digits : ∀ n < 0x20, (Text.padLeft 4 '0' (Text.hexadecimal n)).length = 4 ∧
      (Text.padLeft 4 '0' (Text.hexadecimal n)).mapM (Text.digitValue? 16) =
        some [0, 0, n / 16, n % 16] ∧
      Text.Utf16.isHigh (UInt16.ofNat n) = false ∧ Text.Utf16.isLow (UInt16.ofNat n) = false := by
    decide
  obtain ⟨length, values, high, low⟩ := digits n control
  have value : [0, 0, n / 16, n % 16].foldl (fun v d => v * 16 + d) 0 = n := by
    simp only [List.foldl_cons, List.foldl_nil]
    omega
  have unit : (UInt16.ofNat n).toNat = n := UInt16.toNat_ofNat_of_lt (by
    simp only [UInt16.size]
    omega)
  have pushed : Quoted.pushUnit (.clean read) (UInt16.ofNat n) = .clean (Char.ofNat n :: read) := by
    simp [Quoted.pushUnit, Quoted.clean, Quoted.push, high, low, unit]
  rw [run_unit _ before length values, value, pushed]

theorem run_escape (before : List Token) (read : List Char) (c : Char) (rest : List Char) :
    run ⟨.quoted (.clean read), before⟩ (escape c ++ rest) =
      run ⟨.quoted (.clean (c :: read)), before⟩ rest := by
  unfold escape
  split
  iterate 7 rfl
  split
  · rename_i control
    have opened (left : List Char) : run ⟨.quoted (.clean read), before⟩ ('\\' :: 'u' :: left) =
      run ⟨.unit (.clean read) 3 0, before⟩ left := rfl
    rw [List.cons_append, List.cons_append, opened, run_control before read control,
      Char.ofNat_toNat]
  · rename_i quote backslash _ _ _ _ _ printable
    have pushed : step ⟨.quoted (.clean read), before⟩ c =
        some ⟨.quoted (.clean (c :: read)), before⟩ := by
      have special : c ≠ '"' ∧ c ≠ '\\' := ⟨quote, backslash⟩
      simp [step, special, printable]
      rfl
    rw [List.singleton_append, run_cons, pushed, Option.bind_some]

theorem run_escapes (before : List Token) (read chars rest : List Char) :
    run ⟨.quoted (.clean read), before⟩ (chars.flatMap escape ++ rest) =
      run ⟨.quoted (.clean (chars.reverse ++ read)), before⟩ rest := by
  induction chars generalizing read with
  | nil => rfl
  | cons c chars ih =>
    rw [List.flatMap_cons, List.append_assoc, run_escape, ih, List.reverse_cons, List.append_assoc]
    rfl

theorem Reads.quote {chars : List Char} {tokens : List Token} (s : String)
    (reads : Reads chars tokens) : Reads (quote s ++ chars) (.text (some s) :: tokens) := by
  intro before rest ends
  have opened (left : List Char) :
      run ⟨.between, before⟩ ('"' :: left) = run ⟨.quoted (.clean []), before⟩ left := rfl
  have closed (left : List Char) : run ⟨.quoted (.clean s.toList.reverse), before⟩ ('"' :: left) =
      run ⟨.between, .text (some s) :: before⟩ left := by
    rw [run_cons]
    simp [step, Quoted.clean, Quoted.close]
  calc run ⟨.between, before⟩ (Json.quote s ++ chars ++ rest)
      = run ⟨.quoted (.clean []), before⟩ (s.toList.flatMap escape ++ '"' :: (chars ++ rest)) := by
        simp [Json.quote, opened]
    _ = run ⟨.between, .text (some s) :: before⟩ (chars ++ rest) := by
        rw [run_escapes, List.append_nil, closed]
    _ = run ⟨.between, (Token.text (some s) :: tokens).reverse ++ before⟩ rest := by
        rw [reads _ _ ends, List.reverse_cons, List.append_assoc, List.singleton_append]

end Token

end Json

end HeapLens
