/-!
# Walks

A walk yields items one after the other and computes each of them only when it is asked for, so a
reader may stop early in a walk that nobody could finish.
-/

set_option autoImplicit false

namespace HeapLens

/-- Items that are computed as far as they are read. -/
inductive Walk (α : Type) where
  | done
  | item (a : α) (rest : Unit → Walk α)

namespace Walk

variable {α β : Type}

def toList : Walk α → List α
  | .done => []
  | .item a rest => a :: toList (rest ())

@[simp] theorem toList_done : (done : Walk α).toList = [] := rfl

@[simp] theorem toList_item (a : α) (rest : Unit → Walk α) :
    (item a rest).toList = a :: (rest ()).toList := rfl

def take : Nat → Walk α → List α
  | 0, _ => []
  | _ + 1, .done => []
  | n + 1, .item a rest => a :: take n (rest ())

def map (f : α → β) : Walk α → Walk β
  | .done => .done
  | .item a rest => .item (f a) fun _ => map f (rest ())

@[simp] theorem toList_map (f : α → β) (w : Walk α) : (w.map f).toList = w.toList.map f := by
  induction w with
  | done => rfl
  | item a rest ih => simp [map, ih]

def firstAnswer (f : α → Option β) : Walk α → Option β
  | .done => none
  | .item a rest =>
    match f a with
    | some b => some b
    | none => firstAnswer f (rest ())

theorem firstAnswer_eq (f : α → Option β) (w : Walk α) :
    w.firstAnswer f = w.toList.findSome? f := by
  induction w with
  | done => rfl
  | item a rest ih =>
    simp only [firstAnswer, toList_item, List.findSome?_cons, ih]
    cases f a <;> rfl

def foldM {ε : Type} (f : β → α → Except ε β) : β → Walk α → Except ε β
  | b, .done => .ok b
  | b, .item a rest =>
    match f b a with
    | .error e => .error e
    | .ok b => foldM f b (rest ())

end Walk

end HeapLens
