/-!
# Outcomes

What a computation that may fail yields is stated by two predicates, one on its values and one on
its errors; what a search yields by a predicate on what is found, and by what holds if nothing is.
Such statements follow the steps of the program.
-/

set_option autoImplicit false

namespace HeapLens

variable {ε α β : Type}

/-- Whether a value satisfies `p`, and an error `q`. -/
def Outcome (p : α → Prop) (q : ε → Prop) : Except ε α → Prop
  | .ok a => p a
  | .error e => q e

def Succeeds (p : α → Prop) (x : Except ε α) : Prop := Outcome p (fun _ => False) x

/-- Whether what is found satisfies `p`; if nothing is found, `q` must hold. -/
def Search (p : α → Prop) (q : Prop) : Option α → Prop
  | some a => p a
  | none => q

@[simp] theorem ok_bind (a : α) (f : α → Except ε β) : Except.ok a >>= f = f a := rfl

@[simp] theorem error_bind (e : ε) (f : α → Except ε β) : Except.error e >>= f = .error e := rfl

theorem bind_eq_ok_iff {x : Except ε α} {f : α → Except ε β} {b : β} :
    x >>= f = .ok b ↔ ∃ a, x = .ok a ∧ f a = .ok b := by
  cases x with
  | ok a =>
    constructor
    · exact fun h => ⟨a, rfl, h⟩
    · rintro ⟨a', eq, h⟩
      cases eq
      exact h
  | error e =>
    constructor
    · intro h
      cases h
    · rintro ⟨a, eq, h⟩
      cases eq

theorem mapM_eq_ok {f : α → Except ε β} {g : α → β} {as : List α}
    (hf : ∀ a ∈ as, f a = .ok (g a)) : as.mapM f = .ok (as.map g) := by
  induction as with
  | nil => rfl
  | cons a as ih =>
    rw [List.mapM_cons, hf a List.mem_cons_self, ih fun b mem => hf b (List.mem_cons_of_mem _ mem)]
    rfl

namespace Outcome

variable {p p' : α → Prop} {q q' : ε → Prop} {x : Except ε α}

theorem mono (hx : Outcome p q x) (hp : ∀ a, p a → p' a) (hq : ∀ e, q e → q' e) :
    Outcome p' q' x := by
  cases x with
  | ok a => exact hp a hx
  | error e => exact hq e hx

theorem and (hx : Outcome p q x) (hx' : Outcome p' q' x) :
    Outcome (fun a => p a ∧ p' a) (fun e => q e ∧ q' e) x := by
  cases x with
  | ok a => exact ⟨hx, hx'⟩
  | error e => exact ⟨hx, hx'⟩

theorem bind {r : β → Prop} {f : α → Except ε β} (hx : Outcome p q x)
    (hf : ∀ a, p a → Outcome r q (f a)) : Outcome r q (x >>= f) := by
  cases x with
  | ok a => exact hf a hx
  | error e => exact hx

theorem map {r : β → Prop} (hx : Outcome p q x) (f : α → β) (hf : ∀ a, p a → r (f a)) :
    Outcome r q (x.map f) := by
  cases x with
  | ok a => exact hf a hx
  | error e => exact hx

end Outcome

namespace Succeeds

variable {p p' : α → Prop} {x : Except ε α}

theorem outcome (hx : Succeeds p x) {q : ε → Prop} : Outcome p q x :=
  Outcome.mono hx (fun _ => id) fun _ => False.elim

theorem mono (hx : Succeeds p x) (hp : ∀ a, p a → p' a) : Succeeds p' x :=
  Outcome.mono hx hp fun _ => id

theorem bind {r : β → Prop} {f : α → Except ε β} (hx : Succeeds p x)
    (hf : ∀ a, p a → Succeeds r (f a)) : Succeeds r (x >>= f) :=
  Outcome.bind hx hf

theorem exists_eq (hx : Succeeds p x) : ∃ a, x = .ok a ∧ p a := by
  cases x with
  | ok a => exact ⟨a, rfl, hx⟩
  | error e => exact hx.elim

theorem mapM {p : β → Prop} {f : α → Except ε β} {as : List α}
    (hf : ∀ a ∈ as, Succeeds p (f a)) : Succeeds (fun bs => ∀ b ∈ bs, p b) (as.mapM f) := by
  induction as with
  | nil =>
    intro b mem
    cases mem
  | cons a as ih =>
    rw [List.mapM_cons]
    refine (hf a List.mem_cons_self).bind fun b here => ?_
    refine (ih fun a' mem => hf a' (List.mem_cons_of_mem _ mem)).bind fun bs rest => ?_
    intro b' mem
    rcases List.mem_cons.mp mem with rfl | old
    · exact here
    · exact rest b' old

end Succeeds

namespace Search

variable {p : α → Prop} {q q' : Prop} {o o' : Option α}

theorem map {r : β → Prop} (ho : Search p q o) (f : α → β) (hf : ∀ a, p a → r (f a)) :
    Search r q (o.map f) := by
  cases o with
  | some a => exact hf a ho
  | none => exact ho

theorem mono {p' : α → Prop} (ho : Search p q o) (hp : ∀ a, p a → p' a) (hq : q → q') :
    Search p' q' o := by
  cases o with
  | some a => exact hp a ho
  | none => exact hq ho

theorem orElse (ho : Search p q o) (later : q → Search p q' o') : Search p q' (o <|> o') := by
  cases o with
  | some a => exact ho
  | none => exact later ho

theorem find? (t : α → Bool) (l : List α) :
    Search (fun a => a ∈ l ∧ t a = true) (∀ a ∈ l, ¬t a = true) (l.find? t) := by
  cases found : l.find? t with
  | some a => exact ⟨List.mem_of_find?_eq_some found, List.find?_some found⟩
  | none => exact List.find?_eq_none.mp found

end Search

end HeapLens
