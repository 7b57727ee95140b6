import Mathlib.Logic.Function.Iterate

set_option autoImplicit false

namespace HeapLens

/-- Whether the only run of a loop from one state comes to its end in the other. -/
inductive Finishes {σ : Type} (turn : σ → σ → Prop) : σ → σ → Prop where
  | stop {s : σ} (stuck : ∀ t, ¬turn s t) : Finishes turn s s
  | turn {s t u : σ} (first : turn s t) (only : ∀ t', turn s t' → t' = t)
      (rest : Finishes turn t u) : Finishes turn s u

/-- A turn of a loop that applies `f` as long as this changes something. -/
def Changes {σ : Type} (f : σ → σ) (s t : σ) : Prop := f s = t ∧ t ≠ s

/-- Such a loop finishes in any fixed point that it comes to. -/
theorem finishes_iterate {σ : Type} {f : σ → σ} {s : σ} (count : Nat)
    (fixed : f (f^[count] s) = f^[count] s) : Finishes (Changes f) s (f^[count] s) := by
  have stops {s : σ} (still : f s = s) : Finishes (Changes f) s s := by
    refine .stop ?_
    rintro t ⟨rfl, changed⟩
    exact changed still
  induction count generalizing s with
  | zero => exact stops fixed
  | succ count ih =>
    by_cases still : f s = s
    · rw [Function.iterate_fixed still]
      exact stops still
    · refine .turn (t := f s) ⟨rfl, still⟩ ?_ (ih fixed)
      rintro t ⟨rfl, _⟩
      rfl

end HeapLens
