import HeapLens.Proofs.Query.Library
import HeapLens.Store.Overlay

/-!
# Which calls are refused

A call is refused for its name, for the number of its arguments, or for the type of the one argument
that is checked, and for nothing else: no answer of a store, and no strategy, makes a refusal. What
a call returns is nothing, or of the type that the function is listed with.
-/

set_option autoImplicit false

namespace HeapLens

/-- Whether an error is about the call itself. -/
def QueryError.IsRefusal : QueryError → Prop
  | .unknownFunction _ => True
  | .arity .. => True
  | .argumentType .. => True
  | _ => False

def QueryError.IsStore (e : QueryError) : Prop := ∃ task node fault, e = .store task node fault

/-- Whether a value has a type; nothing has only the type of all values. -/
def QueryValue.HasType : ValueType → QueryValue → Prop
  | .any, _ => True
  | .integer, v => ∃ n, v = .integer n
  | .text, v => ∃ s, v = .text s
  | .handle, v => ∃ x, v = .handle x

/-- The argument whose type is checked, by its position, and the type that it must have. -/
def Function.checked? : Function → Option (Nat × ValueType)
  | .stringContent => some (1, .integer)
  | .element => some (1, .integer)
  | .valueAt => some (1, .text)
  | .field => some (1, .text)
  | .readInteger => some (0, .text)
  | _ => none

/-- Why a function refuses arguments. -/
inductive Function.Refuses (f : Function) (arguments : List QueryValue) : QueryError → Prop
  | arity : arguments.length ≠ f.parameters.length →
    f.Refuses arguments (.arity f.name f.parameters.length arguments.length)
  | argumentType {position : Nat} {expected : ValueType} {v : QueryValue} :
    arguments.length = f.parameters.length → f.checked? = some (position, expected) →
    arguments[position]? = some v → v ≠ .null → ¬v.HasType expected →
    f.Refuses arguments (.argumentType f.name position expected)

def Answers {α : Type} (p : α → Prop) (x : Except QueryError α) : Prop :=
  Outcome p (fun e => ¬e.IsRefusal) x

variable {α β : Type} {session : Session} {l : Library} {v : QueryValue}

theorem Task.on_answers (task : Task) (node : NodeId) (x : Except Fault α) :
    Answers (fun _ => True) (task.on node x) := by
  cases x with
  | ok a => trivial
  | error fault => exact id

theorem Answers.bind {p : α → Prop} {q : β → Prop} {x : Except QueryError α}
    {f : α → Except QueryError β} (hx : Answers p x) (hf : ∀ a, Answers q (f a)) :
    Answers q (x >>= f) :=
  Outcome.bind hx fun a _ => hf a

theorem Answers.map {p : α → Prop} {q : β → Prop} {x : Except QueryError α} (hx : Answers p x)
    (f : α → β) (hf : ∀ a, q (f a)) : Answers q (x.map f) :=
  Outcome.map hx f fun a _ => hf a

def AnswersFor (v : QueryValue) (p : α → Prop) (x : Except QueryError α) : Prop :=
  Outcome p (fun e => ¬e.IsRefusal ∧ (e.IsStore → ∃ y, v = .handle y)) x

theorem Answers.about {p : α → Prop} {x : Except QueryError α} (hx : Answers p x) (y : Handle) :
    AnswersFor (.handle y) p x :=
  hx.mono (fun _ => id) fun _ calm => ⟨calm, fun _ => ⟨y, rfl⟩⟩

theorem AnswersFor.answers {p : α → Prop} {x : Except QueryError α} (hx : AnswersFor v p x) :
    Answers p x :=
  hx.mono (fun _ => id) fun _ calm => calm.1

theorem AnswersFor.map {p : α → Prop} {q : β → Prop} {x : Except QueryError α}
    (hx : AnswersFor v p x) (f : α → β) (hf : ∀ a, q (f a)) : AnswersFor v q (x.map f) :=
  Outcome.map hx f fun a _ => hf a

namespace QueryValue

theorem ofCell_answers (owner : Handle) (c : Cell) : Answers (fun _ => True) (ofCell owner c) := by
  cases c <;> first | trivial | exact id

theorem askNode_answers {p : α → Prop} {task : Task} {otherwise : α}
    {ask : Handle → Store → Except QueryError α} (none : p otherwise)
    (asked : ∀ x store, Answers p (ask x store)) :
    AnswersFor v p (v.askNode session task otherwise ask) := by
  cases v with
  | handle x => exact ((task.on_answers _ _).bind fun store => asked x store).about x
  | _ => exact none

end QueryValue

namespace Store

theorem findAlong_answers (s : Store) (fields : List Field) (own : NodeId) (name : String)
    (levels : List (Except Fault NodeId)) :
    Answers (fun _ => True) (s.findAlong fields own name levels) := by
  induction levels with
  | nil => trivial
  | cons level rest ih =>
    rw [findAlong]
    refine (Task.on_answers _ _ _).bind fun classId => ?_
    cases declaredField? fields own classId name with
    | some field => trivial
    | none =>
      refine (Task.on_answers _ _ _).bind fun statics => ?_
      cases statics.find? (·.name = name) with
      | some field => trivial
      | none => exact ih

theorem findCell_answers (s : Store) (node : NodeId) (name : String) :
    Answers (fun _ => True) (s.findCell node name) := by
  unfold findCell
  refine (Task.on_answers _ _ _).bind fun fields => ?_
  refine (Task.on_answers _ _ _).bind fun own => ?_
  refine (s.findAlong_answers _ _ _ _).bind fun found => ?_
  cases found with
  | some cell => trivial
  | none =>
    dsimp only
    cases fields.find? (·.name = name) with
    | some field => trivial
    | none =>
      exact (Task.on_answers _ _ _).bind fun className => id

end Store

namespace Handle

theorem attribute_answers (x : Handle) (a : Attribute) :
    Answers (fun _ => True) (x.attribute session a) := by
  cases a with
  | className =>
    refine (Task.on_answers _ _ _).bind fun store => ?_
    refine (Task.on_answers _ _ _).bind fun classId => ?_
    exact (Task.on_answers _ _ _).bind fun name => trivial
  | _ =>
    refine (Task.on_answers _ _ _).bind fun store => ?_
    exact (Task.on_answers _ _ _).bind fun answer => trivial

theorem followField_answers (x : Handle) (store : Store) (name : String) :
    Answers (fun _ => True) (x.followField store name) := by
  unfold followField
  exact (store.findCell_answers _ _).bind fun cell => QueryValue.ofCell_answers x cell

theorem follow_answers (session : Session) (x : Handle) (step : Step) :
    Answers (fun _ => True) (x.follow session step) := by
  unfold follow
  refine (Task.on_answers _ _ _).bind fun store => ?_
  rcases step with name | name
  · exact x.followField_answers store name
  · refine (Task.on_answers _ _ _).bind fun kind => ?_
    cases Attribute.findFor? name kind with
    | some a => exact x.attribute_answers a
    | none => exact x.followField_answers store name

theorem text_answers (x : Handle) : Answers (fun _ => True) (x.text session) := by
  unfold text
  refine (Task.on_answers _ _ _).bind fun store => ?_
  refine (Task.on_answers _ _ _).bind fun string => ?_
  cases string with
  | some text => trivial
  | none =>
    refine (Task.on_answers _ _ _).bind fun box => ?_
    cases box <;> trivial

end Handle

theorem QueryValue.displayText_answers (v : QueryValue) :
    AnswersFor v (fun _ => True) (v.displayText session) := by
  cases v with
  | handle x => exact (x.text_answers.map _ fun _ => trivial).about x
  | _ => trivial

namespace Catalog

theorem liveSlots_answers (store : Store) (node : NodeId) :
    Answers (fun _ => True) (liveSlots store node) := by
  unfold liveSlots
  refine (Task.on_answers _ _ _).bind fun slots => ?_
  generalize 0 = live
  induction slots generalizing live with
  | done => trivial
  | item slot rest ih =>
    rw [Walk.foldM]
    cases slot with
    | error fault => exact id
    | ok cell => exact ih () _

theorem sizeWithout_answers (store : Store) (node : NodeId) :
    Answers (fun _ => True) (sizeWithout store node) := by
  unfold sizeWithout
  refine (Task.on_answers _ _ _).bind fun kind => ?_
  by_cases array : kind = .array
  · rw [if_pos array]
    exact (liveSlots_answers store node).bind fun _ => trivial
  · rw [if_neg array]
    trivial

theorem sizeOf_answers (c : Catalog) (x : Handle) :
    Answers (fun _ => True) (c.sizeOf session x) := by
  unfold sizeOf
  refine (Task.on_answers _ _ _).bind fun store => ?_
  refine (Task.on_answers _ _ _).bind fun strategy? => ?_
  cases strategy? with
  | none => exact sizeWithout_answers store x.node
  | some strategy =>
    dsimp only
    by_cases known : strategy.hasSize = true
    · rw [if_pos known]
      exact (Task.on_answers _ _ _).bind fun size => trivial
    · rw [if_neg known]
      exact sizeWithout_answers store x.node

theorem map?_answers (c : Catalog) (x : Handle) :
    Answers (fun _ => True) (c.map? session x) := by
  unfold map?
  refine (Task.on_answers _ _ _).bind fun store => ?_
  refine (Task.on_answers _ _ _).bind fun strategy? => ?_
  cases strategy? <;> trivial

theorem owner_of_map? {c : Catalog} {x : Handle} {view : MapView}
    (seen : c.map? session x = .ok (some view)) : view.owner = x := by
  obtain ⟨store, -, seen⟩ := bind_eq_ok_iff.mp seen
  obtain ⟨strategy?, -, seen⟩ := bind_eq_ok_iff.mp seen
  cases strategy? with
  | none => cases seen
  | some strategy =>
    dsimp only at seen
    split at seen
    · cases seen
      rfl
    · cases seen

theorem matchEntry_answers (view : MapView) (key : String) (item : Except Fault (Cell × Cell)) :
    Answers (fun _ => True) (matchEntry session view key item) := by
  unfold matchEntry
  refine (Task.on_answers _ _ _).bind fun pair => ?_
  refine (QueryValue.ofCell_answers _ _).bind fun keyValue => ?_
  refine keyValue.displayText_answers.answers.bind fun text => ?_
  by_cases same : text = some key
  · rw [if_pos same]
    exact (QueryValue.ofCell_answers _ _).map _ fun _ => trivial
  · rw [if_neg same]
    trivial

theorem valueAt_answers (c : Catalog) (x : Handle) (key : String) :
    Answers (fun _ => True) (c.valueAt session x key) := by
  unfold valueAt
  refine (c.map?_answers x).bind fun view? => ?_
  cases view? with
  | none => trivial
  | some view =>
    refine (Task.on_answers _ _ _).bind fun entries => ?_
    refine Walk.search_outcome (p := fun _ => True) (f := matchEntry session view key) trivial
      fun item mem => ?_
    exact (matchEntry_answers view key item).mono (fun _ _ _ _ => trivial) fun _ => id

end Catalog

namespace QueryValue

theorem classOf_answers (v : QueryValue) :
    AnswersFor v (fun r => r = .null ∨ r.HasType .handle) (v.classOf session) :=
  askNode_answers (.inl rfl) fun _ _ => (Task.on_answers _ _ _).bind fun _ => .inr ⟨_, rfl⟩

theorem className_answers (v : QueryValue) : AnswersFor v (fun _ => True) (v.className session) :=
  askNode_answers trivial fun _ _ => (Task.on_answers _ _ _).bind fun _ => Task.on_answers _ _ _

theorem display_answers (v : QueryValue) :
    AnswersFor v (fun r => r = .null ∨ r.HasType .text) (v.display session) := by
  unfold display
  refine Outcome.bind v.displayText_answers fun text _ => ?_
  cases text
  · exact .inl rfl
  · exact .inr ⟨_, rfl⟩

theorem stringContent_answers (v : QueryValue) (limit : Int64) :
    AnswersFor v (fun r => r = .null ∨ r.HasType .text) (v.stringContent session limit) := by
  refine askNode_answers (.inr ⟨_, rfl⟩) fun _ _ => (Task.on_answers _ _ _).bind fun text => ?_
  cases text
  · exact .inl rfl
  · exact .inr ⟨_, rfl⟩

theorem arrayLength_answers (v : QueryValue) :
    AnswersFor v (fun _ => True) (v.arrayLength session) :=
  askNode_answers trivial fun _ _ => (Task.on_answers _ _ _).bind fun _ => trivial

theorem element_answers (v : QueryValue) (index : Int64) :
    AnswersFor v (fun _ => True) (v.element session index) := by
  unfold element
  by_cases range : 0 ≤ index.toInt ∧ index.toInt < UInt32.size
  · rw [if_pos range]
    refine askNode_answers trivial fun x _ => (Task.on_answers _ _ _).bind fun cell? => ?_
    cases cell? with
    | none => trivial
    | some cell => exact ofCell_answers x cell
  · rw [if_neg range]
    trivial

theorem ownSize_answers (v : QueryValue) : AnswersFor v (fun _ => True) (v.ownSize session) :=
  askNode_answers trivial fun _ _ => (Task.on_answers _ _ _).bind fun _ => trivial

theorem retainedSize_answers (v : QueryValue) :
    AnswersFor v (fun _ => True) (v.retainedSize session) :=
  askNode_answers trivial fun _ _ => (Task.on_answers _ _ _).bind fun _ => trivial

theorem address_answers (v : QueryValue) : AnswersFor v (fun _ => True) (v.address session) :=
  askNode_answers trivial fun _ _ => (Task.on_answers _ _ _).bind fun _ => trivial

theorem dominator_answers (v : QueryValue) :
    AnswersFor v (fun r => r = .null ∨ r.HasType .handle) (v.dominator session) := by
  refine askNode_answers (.inl rfl) fun _ _ => (Task.on_answers _ _ _).bind fun node? => ?_
  cases node?
  · exact .inl rfl
  · exact .inr ⟨_, rfl⟩

theorem field_answers (v : QueryValue) (name : String) :
    AnswersFor v (fun _ => True) (v.field session name) := by
  unfold field
  cases v with
  | handle x =>
    dsimp only [handle?]
    by_cases empty : name.isEmpty = true
    · rw [if_pos empty]
      trivial
    · rw [if_neg empty]
      have followed := (Handle.follow_answers session x (.ofName name)).about x
      cases answer : x.follow session (.ofName name) with
      | ok v => trivial
      | error e =>
        rw [answer] at followed
        cases e <;> trivial
  | _ => trivial

end QueryValue

theorem readInteger_answers (v : QueryValue) (text : String) :
    AnswersFor v (fun _ => True) (readInteger text) := by
  unfold readInteger
  cases Text.readLiteral? text.toList with
  | some n => trivial
  | none => exact ⟨id, nofun⟩

variable {f : Function} {arguments : List QueryValue}

theorem Function.Refuses.not_isStore {e : QueryError} (h : f.Refuses arguments e) : ¬e.IsStore := by
  rintro ⟨task, node, fault, rfl⟩
  cases h

namespace QueryValue

theorem textFor_refuses {position : Nat} (length : arguments.length = f.parameters.length)
    (checked : f.checked? = some (position, .text)) (at_position : arguments[position]? = some v) :
    Outcome (fun _ => True) (f.Refuses arguments) (v.textFor f position) := by
  cases v with
  | null => trivial
  | text s => trivial
  | _ => exact .argumentType length checked at_position nofun nofun

theorem integerFor_refuses {position : Nat} (length : arguments.length = f.parameters.length)
    (checked : f.checked? = some (position, .integer))
    (at_position : arguments[position]? = some v) :
    Outcome (fun _ => True) (f.Refuses arguments) (v.integerFor f position) := by
  cases v with
  | null => trivial
  | integer n => trivial
  | _ => exact .argumentType length checked at_position nofun nofun

end QueryValue

namespace Library

def Returns (f : Function) (v : QueryValue) : Prop := v = .null ∨ v.HasType f.result

structure Fails (f : Function) (arguments : List QueryValue) (e : QueryError) : Prop where
  refusal : e.IsRefusal → f.Refuses arguments e
  store : e.IsStore → ∃ y, .handle y ∈ arguments

theorem valueAt_answers (l : Library) (v : QueryValue) (key : String) :
    AnswersFor v (fun _ => True) (l.valueAt session key v) := by
  cases v with
  | handle x => exact (l.catalog.valueAt_answers x key).about x
  | _ => trivial

theorem sizeOf_answers (l : Library) (v : QueryValue) :
    AnswersFor v (fun _ => True) (l.sizeOf session v) := by
  cases v with
  | handle x => exact (l.catalog.sizeOf_answers x).about x
  | _ => trivial

theorem apply_of_length_ne (length : arguments.length ≠ f.parameters.length) :
    l.apply session f arguments =
      .error (.arity f.name f.parameters.length arguments.length) := by
  unfold apply
  split <;> first | rfl | exact absurd rfl length

theorem unlessNull_fails {p : QueryValue → Prop} {argument : Except QueryError (Option α)}
    {answer : α → Except QueryError QueryValue} (null : p .null)
    (checked : Outcome (fun _ => True) (f.Refuses arguments) argument)
    (answered : ∀ a, Outcome p (Fails f arguments) (answer a)) :
    Outcome p (Fails f arguments) (unlessNull argument answer) := by
  have failed : Outcome (fun _ => True) (Fails f arguments) argument :=
    checked.mono (fun _ => id) fun e refuses =>
      ⟨fun _ => refuses, fun store => absurd store refuses.not_isStore⟩
  unfold unlessNull
  refine failed.bind fun a? _ => ?_
  cases a? with
  | none => exact null
  | some a => exact answered a

/--
A call of a function is refused for its arguments only, needs a handle to fail for a store, and
returns what the function may.
-/
theorem apply_fails (l : Library) (session : Session) (f : Function)
    (arguments : List QueryValue) :
    Outcome (Returns f) (Fails f arguments) (l.apply session f arguments) := by
  have about {p : QueryValue → Prop} {v : QueryValue} {rest : List QueryValue} {f : Function}
      {x : Except QueryError QueryValue} (answers : AnswersFor v p x)
      (returns : ∀ r, p r → Returns f r) : Outcome (Returns f) (Fails f (v :: rest)) x :=
    answers.mono returns fun e calm =>
      ⟨fun refusal => absurd refusal calm.1, fun store => by
        obtain ⟨y, rfl⟩ := calm.2 store
        exact ⟨y, List.mem_cons_self⟩⟩
  have number {v : QueryValue} {rest : List QueryValue} {f : Function} {x : Except QueryError Int64}
      (answers : AnswersFor v (fun _ => True) x) (result : f.result = .integer) :
      Outcome (Returns f) (Fails f (v :: rest)) (x.map .integer) :=
    about (p := QueryValue.HasType .integer) (answers.map _ fun n => ⟨n, rfl⟩)
      fun r typed => .inr (result ▸ typed)
  have anything {f : Function} (result : f.result = .any) (r : QueryValue) (_ : True) :
      Returns f r := .inr (result ▸ trivial)
  by_cases length : arguments.length = f.parameters.length
  · have one (eq : f.parameters.length = 1) : ∃ v, arguments = [v] :=
      List.length_eq_one_iff.mp (length.trans eq)
    have two (eq : f.parameters.length = 2) : ∃ v w, arguments = [v, w] :=
      List.length_eq_two.mp (length.trans eq)
    cases f with
    | id =>
      obtain ⟨v, rfl⟩ := one rfl
      exact .inr ⟨_, rfl⟩
    | classOf =>
      obtain ⟨v, rfl⟩ := one rfl
      exact about v.classOf_answers fun _ => id
    | className =>
      obtain ⟨v, rfl⟩ := one rfl
      exact about (v.className_answers.map _ fun s => ⟨s, rfl⟩) fun _ => Or.inr
    | display =>
      obtain ⟨v, rfl⟩ := one rfl
      exact about v.display_answers fun _ => id
    | epoch =>
      obtain ⟨v, rfl⟩ := one rfl
      exact .inr ⟨_, rfl⟩
    | stringContent =>
      obtain ⟨v, limit, rfl⟩ := two rfl
      exact unlessNull_fails (.inl rfl) (QueryValue.integerFor_refuses rfl rfl rfl) fun limit =>
        about (v.stringContent_answers limit) fun _ => id
    | describe =>
      obtain ⟨v, rfl⟩ := one rfl
      exact .inr ⟨_, rfl⟩
    | valueAt =>
      obtain ⟨v, key, rfl⟩ := two rfl
      exact unlessNull_fails (.inl rfl) (QueryValue.textFor_refuses rfl rfl rfl) fun key =>
        about (l.valueAt_answers v key) (anything rfl)
    | size =>
      obtain ⟨v, rfl⟩ := one rfl
      exact number (l.sizeOf_answers v) rfl
    | length =>
      obtain ⟨v, rfl⟩ := one rfl
      exact number v.arrayLength_answers rfl
    | element =>
      obtain ⟨v, index, rfl⟩ := two rfl
      exact unlessNull_fails (.inl rfl) (QueryValue.integerFor_refuses rfl rfl rfl) fun index =>
        about (v.element_answers index) (anything rfl)
    | ownSize =>
      obtain ⟨v, rfl⟩ := one rfl
      exact number v.ownSize_answers rfl
    | retainedSize =>
      obtain ⟨v, rfl⟩ := one rfl
      exact number v.retainedSize_answers rfl
    | field =>
      obtain ⟨v, name, rfl⟩ := two rfl
      exact unlessNull_fails (.inl rfl) (QueryValue.textFor_refuses rfl rfl rfl) fun name =>
        about (v.field_answers name) (anything rfl)
    | address =>
      obtain ⟨v, rfl⟩ := one rfl
      exact number v.address_answers rfl
    | readInteger =>
      obtain ⟨v, rfl⟩ := one rfl
      exact unlessNull_fails (.inl rfl) (QueryValue.textFor_refuses rfl rfl rfl) fun text =>
        number (readInteger_answers v text) rfl
    | dominator =>
      obtain ⟨v, rfl⟩ := one rfl
      exact about v.dominator_answers fun _ => id
  · rw [apply_of_length_ne length]
    exact ⟨fun _ => .arity length, nofun⟩

theorem unlessNull_integerFor {position : Nat} {answer : Int64 → Except QueryError QueryValue}
    (some : v ≠ .null) (other : ¬v.HasType .integer) :
    unlessNull (v.integerFor f position) answer =
      .error (.argumentType f.name position .integer) := by
  cases v with
  | null => exact absurd rfl some
  | integer n => exact absurd ⟨n, rfl⟩ other
  | _ => rfl

theorem unlessNull_textFor {position : Nat} {answer : String → Except QueryError QueryValue}
    (some : v ≠ .null) (other : ¬v.HasType .text) :
    unlessNull (v.textFor f position) answer = .error (.argumentType f.name position .text) := by
  cases v with
  | null => exact absurd rfl some
  | text s => exact absurd ⟨s, rfl⟩ other
  | _ => rfl

theorem apply_of_checked {position : Nat} {expected : ValueType}
    (length : arguments.length = f.parameters.length)
    (checked : f.checked? = some (position, expected))
    (at_position : arguments[position]? = some v) :
    (v = .null → l.apply session f arguments = .ok .null) ∧
      (v ≠ .null → ¬v.HasType expected →
        l.apply session f arguments = .error (.argumentType f.name position expected)) := by
  cases f with
  | stringContent | element =>
    obtain ⟨subject, w, rfl⟩ := List.length_eq_two.mp length
    cases checked
    cases at_position
    refine ⟨?_, unlessNull_integerFor⟩
    rintro rfl
    rfl
  | valueAt | field =>
    obtain ⟨subject, w, rfl⟩ := List.length_eq_two.mp length
    cases checked
    cases at_position
    refine ⟨?_, unlessNull_textFor⟩
    rintro rfl
    rfl
  | readInteger =>
    obtain ⟨w, rfl⟩ := List.length_eq_one_iff.mp length
    cases checked
    cases at_position
    refine ⟨?_, unlessNull_textFor⟩
    rintro rfl
    rfl
  | _ => cases checked

theorem apply_of_refuses {e : QueryError} (refuses : f.Refuses arguments e) :
    l.apply session f arguments = .error e := by
  cases refuses with
  | arity length => exact apply_of_length_ne length
  | argumentType length checked at_position some other =>
    exact (apply_of_checked length checked at_position).2 some other

theorem apply_eq_refusal_iff {e : QueryError} (refusal : e.IsRefusal) :
    l.apply session f arguments = .error e ↔ f.Refuses arguments e := by
  constructor
  · intro failed
    have outcome := apply_fails l session f arguments
    rw [failed] at outcome
    exact outcome.refusal refusal
  · exact apply_of_refuses

end Library

namespace Function

theorem find?_eq_some_iff {name : String} :
    find? name = some f ↔ Text.sameName f.name name = true :=
  Text.find?_sameName_eq_some_iff f.mem_all (by decide +kernel)

theorem find?_eq_none_iff {name : String} :
    find? name = none ↔ ∀ s ∈ all.map signature, Text.sameName s.name name = false := by
  simp only [find?, List.find?_eq_none, List.forall_mem_map, Bool.not_eq_true]
  rfl

end Function

namespace Library

variable {name : String}

theorem invoke_of_find? (found : Function.find? name = some f) :
    l.invoke session name arguments = l.apply session f arguments := by
  rw [invoke, found]

theorem invoke_eq_refusal_iff {e : QueryError} (refusal : e.IsRefusal) :
    l.invoke session name arguments = .error e ↔
      (Function.find? name = none ∧ e = .unknownFunction name) ∨
        ∃ f, Function.find? name = some f ∧ f.Refuses arguments e := by
  cases found : Function.find? name with
  | none => simp [invoke, found, eq_comm]
  | some f => simp [invoke_of_find? found, apply_eq_refusal_iff refusal]

end Library

/--
Exactly the names that are not listed are unknown; a call of a listed name is refused exactly for a
wrong number of arguments and then for the type of the checked one. Nothing as that argument has the
answer nothing, and every answer is nothing or of the listed type. Neither the session nor the
library has a part in refusals, and no store refuses anything unless an argument is a handle.
-/
theorem invoke_refuses (l : Library) (session : Session) (name : String)
    (arguments : List QueryValue) :
    (∀ n, l.invoke session name arguments = .error (.unknownFunction n) ↔
        n = name ∧ ∀ s ∈ Function.all.map Function.signature, Text.sameName s.name name = false) ∧
      (∀ f : Function, Text.sameName f.name name = true →
        (∀ g expected got, l.invoke session name arguments = .error (.arity g expected got) ↔
          arguments.length ≠ f.parameters.length ∧
            g = f.name ∧ expected = f.parameters.length ∧ got = arguments.length) ∧
          (∀ g position expected,
            l.invoke session name arguments = .error (.argumentType g position expected) ↔
              arguments.length = f.parameters.length ∧ g = f.name ∧
                f.checked? = some (position, expected) ∧
                ∃ v, arguments[position]? = some v ∧ v ≠ .null ∧ ¬v.HasType expected) ∧
          (∀ position expected, f.checked? = some (position, expected) →
            arguments.length = f.parameters.length → arguments[position]? = some .null →
            l.invoke session name arguments = .ok .null) ∧
          ∀ v, l.invoke session name arguments = .ok v → v = .null ∨ v.HasType f.result) ∧
      (∀ e : QueryError, e.IsRefusal → ∀ (l' : Library) (session' : Session),
        (l.invoke session name arguments = .error e ↔
          l'.invoke session' name arguments = .error e)) ∧
      ((∀ v ∈ arguments, v.handle? = none) → ∀ task node fault,
        l.invoke session name arguments ≠ .error (.store task node fault)) := by
  refine ⟨fun n => ?_, fun f same => ⟨fun g expected got => ?_, fun g position expected => ?_,
    fun position expected checked length at_position => ?_, fun v returned => ?_⟩,
    fun e refusal l' session' => ?_, fun handles task node fault failed => ?_⟩
  · rw [Library.invoke_eq_refusal_iff (e := .unknownFunction n) trivial,
      ← Function.find?_eq_none_iff]
    constructor
    · rintro (⟨none, eq⟩ | ⟨f, -, refuses⟩)
      · cases eq
        exact ⟨rfl, none⟩
      · cases refuses
    · rintro ⟨rfl, none⟩
      exact .inl ⟨none, rfl⟩
  · rw [Library.invoke_of_find? (Function.find?_eq_some_iff.mpr same),
      Library.apply_eq_refusal_iff (e := .arity g expected got) trivial]
    constructor
    · rintro ⟨length⟩
      exact ⟨length, rfl, rfl, rfl⟩
    · rintro ⟨length, rfl, rfl, rfl⟩
      exact .arity length
  · rw [Library.invoke_of_find? (Function.find?_eq_some_iff.mpr same),
      Library.apply_eq_refusal_iff (e := .argumentType g position expected) trivial]
    constructor
    · intro refuses
      cases refuses with
      | argumentType length checked at_position some other =>
        exact ⟨length, rfl, checked, _, at_position, some, other⟩
    · rintro ⟨length, rfl, checked, v, at_position, some, other⟩
      exact .argumentType length checked at_position some other
  · rw [Library.invoke_of_find? (Function.find?_eq_some_iff.mpr same)]
    exact (Library.apply_of_checked length checked at_position).1 rfl
  · have outcome := Library.apply_fails l session f arguments
    rw [← Library.invoke_of_find? (Function.find?_eq_some_iff.mpr same), returned] at outcome
    exact outcome
  · rw [Library.invoke_eq_refusal_iff refusal, Library.invoke_eq_refusal_iff refusal]
  · cases found : Function.find? name with
    | none => simp [Library.invoke, found] at failed
    | some f =>
      have outcome := Library.apply_fails l session f arguments
      rw [← Library.invoke_of_find? found, failed] at outcome
      obtain ⟨y, mem⟩ := outcome.store ⟨task, node, fault, rfl⟩
      cases handles _ mem

def deafSession : Session :=
  Session.empty.opening <| Overlay.applyTo
    ⟨[⟨.classOf, none, .corrupt (.reported "deaf")⟩, ⟨.element, none, .corrupt (.reported "deaf")⟩],
      [], [], []⟩ Heap.knotHeap.store

theorem invoke_refuses_deaf :
    knotLibrary.invoke deafSession "GETELEMENT" [.handle ⟨0, ⟨4⟩⟩, .null] = .ok .null ∧
      knotLibrary.invoke deafSession "getElement" [.handle ⟨0, ⟨4⟩⟩, .text "0"] =
        .error (.argumentType "getElement" 1 .integer) ∧
      knotLibrary.invoke Session.empty "nope" [] = .error (.unknownFunction "nope") ∧
      knotLibrary.invoke deafSession "toLong" [.text "0x10"] = .ok (.integer 16) ∧
      (QueryValue.integer 16).HasType .integer ∧
      ∀ task node fault, knotLibrary.invoke deafSession "toLong" [.text "0x10"] ≠
        .error (.store task node fault) := by
  have null := (invoke_refuses knotLibrary deafSession "GETELEMENT"
    [.handle ⟨0, ⟨4⟩⟩, .null]).2.1 .element (by decide)
  have text := (invoke_refuses knotLibrary deafSession "getElement"
    [.handle ⟨0, ⟨4⟩⟩, .text "0"]).2.1 .element (by decide)
  have unknown := invoke_refuses knotLibrary deafSession "nope" []
  have hex := invoke_refuses knotLibrary deafSession "toLong" [.text "0x10"]
  have sixteen : knotLibrary.invoke deafSession "toLong" [.text "0x10"] = .ok (.integer 16) := by
    rfl
  have named : knotLibrary.invoke deafSession "nope" [] = .error (.unknownFunction "nope") :=
    (unknown.1 "nope").mpr ⟨rfl, by decide⟩
  refine ⟨null.2.2.1 1 .integer rfl rfl rfl, ?_, ?_, sixteen, ?_, ?_⟩
  · exact (text.2.1 _ _ _).mpr ⟨rfl, rfl, rfl, _, rfl, nofun, nofun⟩
  · exact (unknown.2.2.1 (.unknownFunction "nope") trivial _ _).mp named
  · exact ((hex.2.1 .readInteger (by decide)).2.2.2 _ sixteen).resolve_left nofun
  · exact hex.2.2.2 (by simp [QueryValue.handle?])

end HeapLens
