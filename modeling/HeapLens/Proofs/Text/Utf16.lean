import HeapLens.Text.Utf16
import Mathlib.Tactic.Common

set_option autoImplicit false

namespace HeapLens.Text.Utf16

variable {c : Char} {unit high low : UInt16}

theorem isHigh_iff : isHigh unit = true ↔ 0xD800 ≤ unit.toNat ∧ unit.toNat < 0xDC00 := by
  simp [isHigh, UInt16.le_iff_toNat_le, UInt16.lt_iff_toNat_lt]

theorem isLow_iff : isLow unit = true ↔ 0xDC00 ≤ unit.toNat ∧ unit.toNat < 0xE000 := by
  simp [isLow, UInt16.le_iff_toNat_le, UInt16.lt_iff_toNat_lt]

theorem scalar (c : Char) : c.toNat < 0xD800 ∨ 0xDFFF < c.toNat ∧ c.toNat < 0x110000 :=
  c.valid

theorem decode_single (other : isHigh unit = false) (rest : List UInt16) :
    decode (unit :: rest) = single unit :: decode rest := by
  cases rest with
  | nil => rfl
  | cons next rest => simp [decode, other]

theorem decode_pair (first : isHigh high = true) (second : isLow low = true) (rest : List UInt16) :
    decode (high :: low :: rest) = pair high low :: decode rest := by
  simp [decode, first, second]

theorem decode_units_append (c : Char) (rest : List UInt16) :
    decode (units c ++ rest) = c :: decode rest := by
  have scalar := scalar c
  unfold units
  split
  · rename_i small
    have code : (UInt16.ofNat c.toNat).toNat = c.toNat := by
      rw [UInt16.toNat_ofNat']
      omega
    have not_high : isHigh (UInt16.ofNat c.toNat) = false := by
      rw [← Bool.not_eq_true, isHigh_iff]
      omega
    have not_low : isLow (UInt16.ofNat c.toNat) = false := by
      rw [← Bool.not_eq_true, isLow_iff]
      omega
    rw [List.singleton_append, decode_single not_high]
    simp [single, not_high, not_low, code]
  · rename_i large
    have high_code : (UInt16.ofNat (0xD800 + (c.toNat - 0x10000) / 0x400)).toNat =
        0xD800 + (c.toNat - 0x10000) / 0x400 := by
      rw [UInt16.toNat_ofNat']
      omega
    have low_code : (UInt16.ofNat (0xDC00 + (c.toNat - 0x10000) % 0x400)).toNat =
        0xDC00 + (c.toNat - 0x10000) % 0x400 := by
      rw [UInt16.toNat_ofNat']
      omega
    have pair_eq : pair (UInt16.ofNat (0xD800 + (c.toNat - 0x10000) / 0x400))
        (UInt16.ofNat (0xDC00 + (c.toNat - 0x10000) % 0x400)) = c := by
      have code : 0x10000 + (0xD800 + (c.toNat - 0x10000) / 0x400 - 0xD800) * 0x400 +
          (0xDC00 + (c.toNat - 0x10000) % 0x400 - 0xDC00) = c.toNat := by omega
      rw [pair, high_code, low_code, code, Char.ofNat_toNat]
    refine (decode_pair (isHigh_iff.mpr ?_) (isLow_iff.mpr ?_) rest).trans (by rw [pair_eq])
    · omega
    · omega

theorem decode_encode_append (text : List Char) (rest : List UInt16) :
    decode (encode text ++ rest) = text ++ decode rest := by
  induction text with
  | nil => rfl
  | cons c text ih =>
    have split : encode (c :: text) ++ rest = units c ++ (encode text ++ rest) := by
      simp [encode]
    rw [split, decode_units_append, ih, List.cons_append]

theorem decode_encode (text : List Char) : decode (encode text) = text := by
  simpa [decode] using decode_encode_append text []

theorem encode_of_small {text : List Char} (small : ∀ c ∈ text, c.toNat < 0x10000) :
    encode text = text.map fun c => UInt16.ofNat c.toNat := by
  induction text with
  | nil => rfl
  | cons c text ih =>
    have rest := ih fun d mem => small d (List.mem_cons_of_mem _ mem)
    have first : units c = [UInt16.ofNat c.toNat] := if_pos (small c List.mem_cons_self)
    rw [encode] at rest
    rw [encode, List.flatMap_cons, first, rest]
    rfl

def lowByte (unit : UInt16) : UInt8 := unit.toUInt8

def highByte (unit : UInt16) : UInt8 := (unit >>> 8).toUInt8

theorem toNat_ofBytes (low high : UInt8) :
    (ofBytes low high).toNat = high.toNat * 256 + low.toNat := by
  have first : low.toNat < 256 := low.toNat_lt
  have second : high.toNat < 256 := high.toNat_lt
  have whole : high.toNat * 256 % 65536 = high.toNat * 256 := Nat.mod_eq_of_lt (by omega)
  have sum : low.toNat ||| high.toNat <<< 8 = high.toNat <<< 8 + low.toNat := by
    rw [Nat.or_comm, Nat.shiftLeft_add_eq_or_of_lt (by simpa using first)]
  simpa [ofBytes, Nat.shiftLeft_eq, whole] using sum

theorem ofBytes_bytes (unit : UInt16) : ofBytes (lowByte unit) (highByte unit) = unit := by
  apply UInt16.toNat_inj.mp
  have bound : unit.toNat < 65536 := unit.toNat_lt
  rw [toNat_ofBytes]
  simp [lowByte, highByte, Nat.shiftRight_eq_div_pow]
  omega

end HeapLens.Text.Utf16
