set_option autoImplicit false

namespace HeapLens.Text

def folded (text : String) : List Char :=
  text.toList.map Char.toLower

/-- Whether two names have the same letters, ASCII case aside. -/
def sameName (a b : String) : Bool :=
  folded a == folded b

theorem toLower_cases (c : Char) :
    c.toLower = c ∨ 65 ≤ c.toNat ∧ c.toNat ≤ 90 ∧ c.toLower.toNat = c.toNat + 32 := by
  unfold Char.toLower
  split
  · rename_i capital
    have code : c.val.toNat = c.toNat := rfl
    have least : 65 ≤ c.val.toNat := UInt32.le_iff_toNat_le.mp capital.1
    have greatest : c.val.toNat ≤ 90 := UInt32.le_iff_toNat_le.mp capital.2
    refine .inr ⟨least, greatest, ?_⟩
    change (c.val + 32).toNat = _
    have shift : (32 : UInt32).toNat = 32 := rfl
    rw [UInt32.toNat_add]
    omega
  · exact .inl rfl

theorem sameName_iff {a b : String} : sameName a b = true ↔ folded a = folded b := by
  simp [sameName]

theorem find?_sameName_eq_some_iff {α : Type} {nameOf : α → String} {l : List α} {a : α}
    {name : String} (mem : a ∈ l)
    (distinct : ∀ a ∈ l, ∀ b ∈ l, sameName (nameOf a) (nameOf b) = true → a = b) :
    l.find? (fun b => sameName (nameOf b) name) = some a ↔ sameName (nameOf a) name = true := by
  constructor
  · exact fun found => List.find?_some (p := fun b => sameName (nameOf b) name) found
  · intro same
    cases found : l.find? (fun b => sameName (nameOf b) name) with
    | none => exact absurd same (List.find?_eq_none.mp found a mem)
    | some b =>
      have same_b := List.find?_some (p := fun b => sameName (nameOf b) name) found
      rw [sameName_iff] at same same_b
      rw [distinct b (List.mem_of_find?_eq_some found) a mem
        (sameName_iff.mpr (same_b.trans same.symm))]

end HeapLens.Text
