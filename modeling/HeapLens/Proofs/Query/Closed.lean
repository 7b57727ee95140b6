import HeapLens.Proofs.Query.Calls
import HeapLens.Proofs.Text.Numeral

/-!
# What closed stores tell

A handle into a closed store is dead: of the node only the number is left. Two runs of a query whose
handles are the same, or dead with the same numbers, have the same outcome, whatever the closed
stores contained.
-/

set_option autoImplicit false

namespace HeapLens

variable {session session' : Session} {x x' : Handle} {v v' : QueryValue} {l : Library}

namespace Session

theorem isOpen_closing (session : Session) (place : Nat) (node : NodeId) :
    (session.closing place).isOpen ⟨place, node⟩ = false := by
  have gone : (session.closing place).storeAt place = .error .closed := by
    unfold storeAt closing
    rw [List.getElem?_set_self']
    cases session.stores[place]? <;> rfl
  rw [isOpen, storeOf, gone]
  rfl

theorem storeOf_of_dead (dead : session.isOpen x = false) :
    session.storeOf x = .error .closed := by
  unfold isOpen at dead
  unfold storeOf storeAt at *
  split at dead
  · cases dead
  · rfl

end Session

/-- Two handles, each in a run of its own, to nodes of one number whose stores are closed. -/
structure Twins (session session' : Session) (x x' : Handle) : Prop where
  dead : session.isOpen x = false
  dead' : session'.isOpen x' = false
  node : x.node = x'.node

/-- What two runs are given is the same, but for which closed stores their handles point into. -/
inductive QueryValue.Alike (session session' : Session) : QueryValue → QueryValue → Prop
  | dead {x x' : Handle} :
    Twins session session' x x' → Alike session session' (.handle x) (.handle x')
  | shared {x : Handle} : session.storeOf x = session'.storeOf x →
    Alike session session' (.handle x) (.handle x)
  | other {v : QueryValue} : v.handle? = none → Alike session session' v v

/-- The outcomes of two runs are the same, in the same sense. -/
def SameOutcome (session session' : Session) :
    Except QueryError QueryValue → Except QueryError QueryValue → Prop
  | .ok v, .ok v' => v.Alike session session' v'
  | .error e, .error e' => e = e'
  | _, _ => False

namespace Handle

section

variable (dead : session.isOpen x = false)
include dead

theorem label_of_dead : x.label session = "<closed>" ++ x.node.label := by
  rw [label, Session.storeOf_of_dead dead]

theorem address?_of_dead : x.address? session = none := by
  rw [address?, Session.storeOf_of_dead dead]

theorem className?_of_dead : x.className? session = none := by
  rw [className?, Session.storeOf_of_dead dead]

theorem text_of_dead : x.text session = .error (.store .render x.node .closed) := by
  rw [text, Session.storeOf_of_dead dead]
  rfl

theorem follow_of_dead (step : Step) :
    x.follow session step = .error (.store .navigate x.node .closed) := by
  rw [follow, Session.storeOf_of_dead dead]
  rfl

theorem same_of_dead (y : Handle) : x.same session y = false ∧ y.same session x = false := by
  constructor
  · rw [same, dead, Bool.and_false]
  · unfold same
    by_cases eq : y = x
    · rw [eq, dead, Bool.and_false]
    · rw [beq_eq_false_iff_ne.mpr eq, Bool.false_and]

theorem resolve_of_dead {p : Path} (steps : p.steps ≠ []) :
    p.resolve session x = .error (.store .navigate x.node .closed) := by
  obtain ⟨step, rest, eq⟩ := List.exists_cons_of_ne_nil steps
  rw [Path.resolve, eq, Path.followAll, follow_of_dead dead]
  rfl

end

end Handle

namespace Twins

/-- The answers that dead handles still give, and the refusals of everything else, are the same. -/
structure SameAnswers (session session' : Session) (x x' : Handle) : Prop where
  path : ∀ p : Path, SameOutcome session session' (p.resolve session x) (p.resolve session' x')
  step : ∀ step, x.follow session step = x'.follow session' step
  computed : ∀ a, x.attribute session a = x'.attribute session' a
  sequence : ∀ c : Catalog, c.sequence? session x = c.sequence? session' x'
  map : ∀ c : Catalog, c.map? session x = c.map? session' x'
  size : ∀ c : Catalog, c.sizeOf session x = c.sizeOf session' x'
  value : ∀ (c : Catalog) (key : String), c.valueAt session x key = c.valueAt session' x' key
  text : x.text session = x'.text session'
  label : x.label session = x'.label session'
  diagnostic : x.diagnostic = x'.diagnostic
  json : x.toJson session = x'.toJson session'

theorem sameAnswers (twins : Twins session session' x x') :
    SameAnswers session session' x x' := by
  have gone := Session.storeOf_of_dead twins.dead
  have gone' := Session.storeOf_of_dead twins.dead'
  have map (c : Catalog) : c.map? session x = c.map? session' x' := by
    simp only [Catalog.map?, gone, gone', twins.node]
    rfl
  refine ⟨fun p => ?_, fun step => ?_, fun a => ?_, fun c => ?_, map, fun c => ?_, fun c key => ?_,
    ?_, ?_, ?_, ?_⟩
  · by_cases steps : p.steps = []
    · rw [Path.resolve, Path.resolve, steps]
      exact .dead twins
    · rw [Handle.resolve_of_dead twins.dead steps, Handle.resolve_of_dead twins.dead' steps,
        twins.node]
      rfl
  · rw [Handle.follow_of_dead twins.dead, Handle.follow_of_dead twins.dead', twins.node]
  · cases a <;> simp only [Handle.attribute, gone, gone', twins.node] <;> rfl
  · simp only [Catalog.sequence?, gone, gone', twins.node]
    rfl
  · simp only [Catalog.sizeOf, gone, gone', twins.node]
  · simp only [Catalog.valueAt, Catalog.map?, gone, gone', twins.node]
    rfl
  · rw [Handle.text_of_dead twins.dead, Handle.text_of_dead twins.dead', twins.node]
  · rw [Handle.label_of_dead twins.dead, Handle.label_of_dead twins.dead', twins.node]
  · rw [Handle.diagnostic, Handle.diagnostic, twins.node]
  · rw [Handle.toJson, Handle.toJson, Handle.address?_of_dead twins.dead,
      Handle.address?_of_dead twins.dead', Handle.className?_of_dead twins.dead,
      Handle.className?_of_dead twins.dead', twins.node]

end Twins

namespace Handle

section

variable (agree : session.storeOf x = session'.storeOf x)
include agree

theorem label_congr : x.label session = x.label session' := by
  rw [label, label, agree]

theorem text_congr : x.text session = x.text session' := by
  rw [text, text, agree, label_congr agree]

theorem attribute_congr (a : Attribute) : x.attribute session a = x.attribute session' a := by
  cases a <;> simp only [Handle.attribute, agree]

theorem follow_congr (step : Step) : x.follow session step = x.follow session' step := by
  simp only [follow, agree, x.attribute_congr agree]

end

end Handle

theorem QueryValue.displayText_ofCell_congr {owner : Handle}
    (agree : session.storeOf owner = session'.storeOf owner) {c : Cell}
    (value : QueryValue.ofCell owner c = .ok v) :
    v.displayText session = v.displayText session' := by
  cases c with
  | ref node =>
    cases value
    exact congrArg (·.map some) (Handle.text_congr (x := owner.sibling node) agree)
  | wide | unclassified => cases value
  | _ =>
    cases value
    rfl

namespace Catalog

theorem matchEntry_congr {view : MapView}
    (agree : session.storeOf view.owner = session'.storeOf view.owner) (key : String)
    (item : Except Fault (Cell × Cell)) :
    matchEntry session view key item = matchEntry session' view key item := by
  unfold matchEntry
  refine bind_congr fun (keyCell, valueCell) => ?_
  dsimp only
  cases value : QueryValue.ofCell view.owner keyCell with
  | error e => rfl
  | ok v =>
    change (v.displayText session >>= _) = (v.displayText session' >>= _)
    rw [QueryValue.displayText_ofCell_congr agree value]

variable (agree : session.storeOf x = session'.storeOf x)
include agree

theorem map?_congr (c : Catalog) : c.map? session x = c.map? session' x := by
  simp only [map?, agree]

theorem sizeOf_congr (c : Catalog) : c.sizeOf session x = c.sizeOf session' x := by
  simp only [sizeOf, agree]

theorem valueAt_congr (c : Catalog) (key : String) :
    c.valueAt session x key = c.valueAt session' x key := by
  unfold valueAt
  rw [map?_congr agree c]
  cases seen : c.map? session' x with
  | error e => rfl
  | ok view? =>
    cases view? with
    | none => rfl
    | some view =>
      have same : matchEntry session view key = matchEntry session' view key :=
        funext <| matchEntry_congr (owner_of_map? seen ▸ agree) key
      simp only [bind, Except.bind, same]

end Catalog

namespace QueryValue.Alike

variable (alike : v.Alike session session' v')
include alike

theorem askNode {α : Type} (task : Task) (otherwise : α)
    (ask : Handle → Store → Except QueryError α) :
    v.askNode session task otherwise ask = v'.askNode session' task otherwise ask := by
  cases alike with
  | dead twins =>
    simp only [QueryValue.askNode, handle?, Session.storeOf_of_dead twins.dead,
      Session.storeOf_of_dead twins.dead', twins.node]
    rfl
  | shared agree => simp only [QueryValue.askNode, handle?, agree]
  | other none => simp only [QueryValue.askNode, none]

theorem displayText : v.displayText session = v'.displayText session' := by
  cases alike with
  | dead twins => exact congrArg (·.map some) twins.sameAnswers.text
  | shared agree => exact congrArg (·.map some) (Handle.text_congr agree)
  | other none =>
    cases v with
    | handle x => cases none
    | _ => rfl

theorem describe : v.describe session = v'.describe session' := by
  cases alike with
  | dead twins => exact congrArg ("HeapReference: " ++ ·) twins.sameAnswers.label
  | shared agree => exact congrArg ("HeapReference: " ++ ·) (Handle.label_congr agree)
  | other none =>
    cases v with
    | handle x => cases none
    | _ => rfl

theorem nodeNumber : v.nodeNumber = v'.nodeNumber := by
  cases alike with
  | dead twins => simp only [QueryValue.nodeNumber, handle?, twins.node]
  | _ => rfl

theorem element (index : Int64) : v.element session index = v'.element session' index := by
  simp only [QueryValue.element, alike.askNode]

theorem field (name : String) : v.field session name = v'.field session' name := by
  cases alike with
  | dead twins => simp only [QueryValue.field, handle?, twins.sameAnswers.step]
  | shared agree => simp only [QueryValue.field, handle?, Handle.follow_congr agree]
  | other none => simp only [QueryValue.field, none]

theorem integerFor (f : Function) (position : Nat) :
    v.integerFor f position = v'.integerFor f position := by
  cases alike <;> rfl

theorem textFor (f : Function) (position : Nat) :
    v.textFor f position = v'.textFor f position := by
  cases alike <;> rfl

theorem valueAt (l : Library) (key : String) :
    l.valueAt session key v = l.valueAt session' key v' := by
  cases alike with
  | dead twins => exact twins.sameAnswers.value _ _
  | shared agree => exact Catalog.valueAt_congr agree _ _
  | other none => simp only [Library.valueAt, none]

theorem sizeOf (l : Library) : l.sizeOf session v = l.sizeOf session' v' := by
  cases alike with
  | dead twins => exact twins.sameAnswers.size _
  | shared agree => exact Catalog.sizeOf_congr agree _
  | other none => simp only [Library.sizeOf, none]

end QueryValue.Alike

namespace Library

variable {f : Function} {arguments arguments' : List QueryValue}

theorem apply_alike
    (alikes : List.Forall₂ (QueryValue.Alike session session') arguments arguments') :
    l.apply session f arguments = l.apply session' f arguments' := by
  by_cases length : arguments.length = f.parameters.length
  · have one (eq : f.parameters.length = 1) :
        ∃ v v', v.Alike session session' v' ∧ arguments = [v] ∧ arguments' = [v'] := by
      obtain ⟨v, rfl⟩ := List.length_eq_one_iff.mp (length.trans eq)
      obtain ⟨v', _, alike, none, rfl⟩ := List.forall₂_cons_left_iff.mp alikes
      exact ⟨v, v', alike, rfl, by rw [List.forall₂_nil_left_iff.mp none]⟩
    have two (eq : f.parameters.length = 2) :
        ∃ v v' w w', v.Alike session session' v' ∧ w.Alike session session' w' ∧
          arguments = [v, w] ∧ arguments' = [v', w'] := by
      obtain ⟨v, w, rfl⟩ := List.length_eq_two.mp (length.trans eq)
      obtain ⟨v', _, alike, rest, rfl⟩ := List.forall₂_cons_left_iff.mp alikes
      obtain ⟨w', _, alike_w, none, rfl⟩ := List.forall₂_cons_left_iff.mp rest
      exact ⟨v, v', w, w', alike, alike_w, rfl, by rw [List.forall₂_nil_left_iff.mp none]⟩
    cases f with
    | stringContent | valueAt | element | field =>
      obtain ⟨v, v', w, w', alike, alike_w, rfl, rfl⟩ := two rfl
      simp only [apply, alike_w.integerFor, alike_w.textFor, QueryValue.stringContent,
        alike.askNode, alike.valueAt, alike.element, alike.field]
    | _ =>
      obtain ⟨v, v', alike, rfl, rfl⟩ := one rfl
      simp only [apply, alike.nodeNumber, alike.displayText, alike.describe, alike.sizeOf,
        alike.textFor, alike.askNode, epoch, QueryValue.display, QueryValue.classOf,
        QueryValue.className, QueryValue.arrayLength, QueryValue.ownSize, QueryValue.retainedSize,
        QueryValue.address, QueryValue.dominator]
  · rw [apply_of_length_ne length, apply_of_length_ne (alikes.length_eq ▸ length),
      alikes.length_eq]

theorem invoke_alike (name : String)
    (alike : List.Forall₂ (QueryValue.Alike session session') arguments arguments') :
    l.invoke session name arguments = l.invoke session' name arguments' := by
  unfold invoke
  cases Function.find? name with
  | none => rfl
  | some f => exact apply_alike alike

/-- The answers to calls with a node of a closed store: these need no store. -/
inductive Storeless (l : Library) (node : NodeId) :
    Function → List QueryValue → QueryValue → Prop
  | id {n : Int64} : n.toInt = (if node.index < 2 ^ 63 then (node.index : Int) else -1) →
    l.Storeless node .id [] (.integer n)
  | describe : l.Storeless node .describe [] (.text ("HeapReference: <closed>" ++ node.label))
  | epoch : l.Storeless node .epoch [] (.text l.epochs.wrongType)
  | null {f : Function} {expected : ValueType} : f.checked? = some (1, expected) →
    l.Storeless node f [.null] .null
  | element {index : Int64} : ¬(0 ≤ index.toInt ∧ index.toInt < 2 ^ 32) →
    l.Storeless node .element [.integer index] .null
  | field : l.Storeless node .field [.text ""] .null

end Library

theorem Function.checked_of_not_refuses {f : Function} {arguments : List QueryValue}
    (accepted : ∀ e, ¬f.Refuses arguments e) :
    arguments.length = f.parameters.length ∧
      ∀ position expected v, f.checked? = some (position, expected) →
        arguments[position]? = some v → v = .null ∨ v.HasType expected := by
  have length : arguments.length = f.parameters.length := by
    by_contra length
    exact accepted _ (.arity length)
  refine ⟨length, fun position expected v checked at_position => ?_⟩
  by_contra wrong
  rw [not_or] at wrong
  exact accepted _ (.argumentType length checked at_position wrong.1 wrong.2)

namespace QueryValue

theorem toInt_nodeNumber (x : Handle) :
    (handle x).nodeNumber.toInt =
      (if x.node.index < 2 ^ 63 then (x.node.index : Int) else -1) := by
  have limit : Text.int64Limit = 2 ^ 63 := rfl
  simp only [nodeNumber, handle?, limit]
  by_cases small : x.node.index < 2 ^ 63
  · rw [if_pos small, if_pos small]
    exact Text.toInt_toInt64 small
  · rw [if_neg small, if_neg small]
    rfl

theorem askNode_of_dead {α : Type} (dead : session.isOpen x = false) (task : Task) (otherwise : α)
    (ask : Handle → Store → Except QueryError α) :
    (handle x).askNode session task otherwise ask = .error (.store task x.node .closed) := by
  simp only [askNode, handle?, Session.storeOf_of_dead dead]
  rfl

theorem stringContent_of_dead (dead : session.isOpen x = false) (limit : Int64) :
    (handle x).stringContent session limit = .error (.store .readString x.node .closed) :=
  askNode_of_dead dead _ _ _

theorem element_of_outside {index : Int64} (outside : ¬(0 ≤ index.toInt ∧ index.toInt < 2 ^ 32)) :
    v.element session index = .ok .null :=
  if_neg outside

theorem element_of_dead {index : Int64} (dead : session.isOpen x = false)
    (inside : 0 ≤ index.toInt ∧ index.toInt < 2 ^ 32) :
    (handle x).element session index = .error (.store .readSlot x.node .closed) :=
  (if_pos inside).trans (askNode_of_dead dead _ _ _)

theorem field_of_dead {name : String} (dead : session.isOpen x = false) (nonempty : name ≠ "") :
    (handle x).field session name = .error (.store .navigate x.node .closed) := by
  simp [field, handle?, x.follow_of_dead dead, nonempty]

end QueryValue

namespace Library

theorem valueAt_of_dead (dead : session.isOpen x = false) (key : String) :
    l.valueAt session key (.handle x) = .error (.store .openMap x.node .closed) := by
  simp only [valueAt, QueryValue.handle?, Catalog.valueAt, Catalog.map?,
    Session.storeOf_of_dead dead]
  rfl

/-- A call that takes a dead handle first needs no store, or is refused because it is closed. -/
theorem apply_of_dead {f : Function} {rest : List QueryValue} (dead : session.isOpen x = false)
    (accepted : ∀ e, ¬f.Refuses (.handle x :: rest) e) :
    (∃ v, l.Storeless x.node f rest v ∧ l.apply session f (.handle x :: rest) = .ok v) ∨
      (∀ v, ¬l.Storeless x.node f rest v) ∧
        ∃ task, l.apply session f (.handle x :: rest) = .error (.store task x.node .closed) := by
  obtain ⟨length, typed⟩ := Function.checked_of_not_refuses accepted
  have none (eq : f.parameters.length = 1) : rest = [] :=
    List.length_eq_zero_iff.mp (Nat.succ.inj (length.trans eq))
  have one (eq : f.parameters.length = 2) : ∃ w, rest = [w] :=
    List.length_eq_one_iff.mp (Nat.succ.inj (length.trans eq))
  cases f with
  | id =>
    obtain rfl := none rfl
    exact .inl ⟨_, .id (QueryValue.toInt_nodeNumber x), rfl⟩
  | describe =>
    obtain rfl := none rfl
    refine .inl ⟨_, .describe, ?_⟩
    simp only [apply, QueryValue.describe, QueryValue.handle?, Handle.label_of_dead dead]
    rfl
  | epoch =>
    obtain rfl := none rfl
    refine .inl ⟨_, .epoch, ?_⟩
    simp only [apply, epoch, QueryValue.displayText, Handle.text_of_dead dead]
    rfl
  | stringContent =>
    obtain ⟨w, rfl⟩ := one rfl
    rcases typed 1 .integer w rfl rfl with rfl | ⟨limit, rfl⟩
    · exact .inl ⟨_, .null rfl, rfl⟩
    · exact .inr ⟨by rintro v ⟨⟩, .readString, QueryValue.stringContent_of_dead dead limit⟩
  | valueAt =>
    obtain ⟨w, rfl⟩ := one rfl
    rcases typed 1 .text w rfl rfl with rfl | ⟨key, rfl⟩
    · exact .inl ⟨_, .null rfl, rfl⟩
    · exact .inr ⟨by rintro v ⟨⟩, .openMap, valueAt_of_dead dead key⟩
  | element =>
    obtain ⟨w, rfl⟩ := one rfl
    rcases typed 1 .integer w rfl rfl with rfl | ⟨index, rfl⟩
    · exact .inl ⟨_, .null rfl, rfl⟩
    · by_cases inside : 0 ≤ index.toInt ∧ index.toInt < 2 ^ 32
      · refine .inr ⟨?_, .readSlot, QueryValue.element_of_dead dead inside⟩
        rintro _ (_ | _ | _ | _ | outside)
        exact outside inside
      · exact .inl ⟨_, .element inside, QueryValue.element_of_outside inside⟩
  | field =>
    obtain ⟨w, rfl⟩ := one rfl
    rcases typed 1 .text w rfl rfl with rfl | ⟨name, rfl⟩
    · exact .inl ⟨_, .null rfl, rfl⟩
    · by_cases empty : name = ""
      · subst empty
        exact .inl ⟨_, .field, rfl⟩
      · refine .inr ⟨?_, .navigate, QueryValue.field_of_dead dead empty⟩
        rintro _ (_ | _ | _ | _ | _ | _)
        exact empty rfl
  | readInteger =>
    rcases typed 0 .text (.handle x) rfl rfl with eq | ⟨s, eq⟩ <;> cases eq
  | display =>
    obtain rfl := none rfl
    refine .inr ⟨by rintro v ⟨⟩, .render, ?_⟩
    simp only [apply, QueryValue.display, QueryValue.displayText, Handle.text_of_dead dead]
    rfl
  | size =>
    obtain rfl := none rfl
    refine .inr ⟨by rintro v ⟨⟩, .obtainSize, ?_⟩
    simp only [apply, sizeOf, QueryValue.handle?, Catalog.sizeOf, Session.storeOf_of_dead dead]
    rfl
  | _ =>
    obtain rfl := none rfl
    refine .inr ⟨by rintro v ⟨⟩, ?_⟩
    simp only [apply, QueryValue.classOf, QueryValue.className, QueryValue.arrayLength,
      QueryValue.ownSize, QueryValue.retainedSize, QueryValue.address, QueryValue.dominator,
      QueryValue.askNode_of_dead dead]
    exact ⟨_, rfl⟩

end Library

/--
A handle into a closed store is dead. Calls whose arguments differ only in the closed stores behind
their dead handles have one outcome, and so has everything else that is asked of such handles. A
well-typed call with a dead handle needs no store or is refused because the store is closed; a path
leads nowhere, and equal to a dead handle is nothing.
-/
theorem closed_stores_tell_nothing (twins : Twins session session' x x') :
    (∀ (s : Session) (place : Nat) (node : NodeId),
        (s.closing place).isOpen ⟨place, node⟩ = false) ∧
      (∀ (l : Library) (name : String) (arguments arguments' : List QueryValue),
        List.Forall₂ (QueryValue.Alike session session') arguments arguments' →
        l.invoke session name arguments = l.invoke session' name arguments') ∧
      Twins.SameAnswers session session' x x' ∧
      (∀ (l : Library) (name : String) (f : Function) (rest : List QueryValue),
        Function.find? name = some f → (∀ e, ¬f.Refuses (.handle x :: rest) e) →
        (∃ v, l.Storeless x.node f rest v ∧
            l.invoke session name (.handle x :: rest) = .ok v) ∨
          (∀ v, ¬l.Storeless x.node f rest v) ∧
            ∃ task, l.invoke session name (.handle x :: rest) =
              .error (.store task x.node .closed)) ∧
      (∀ p : Path, p.steps ≠ [] →
        p.resolve session x = .error (.store .navigate x.node .closed)) ∧
      ∀ y, x.same session y = false ∧ y.same session x = false := by
  refine ⟨Session.isOpen_closing, fun l name _ _ => Library.invoke_alike name, twins.sameAnswers,
    fun l name f rest found accepted => ?_, fun p => Handle.resolve_of_dead twins.dead,
    Handle.same_of_dead twins.dead⟩
  rw [Library.invoke_of_find? found]
  exact Library.apply_of_dead twins.dead accepted

theorem closed_stores_tell_nothing_knot :
    let session := knotSession.closing 0
    let session' := (knotSession.opening Heap.knotHeap.store).closing 1
    Twins session session' ⟨0, ⟨4⟩⟩ ⟨1, ⟨4⟩⟩ ∧
      knotLibrary.invoke session "getSize" [.handle ⟨0, ⟨4⟩⟩] =
        knotLibrary.invoke session' "getSize" [.handle ⟨1, ⟨4⟩⟩] ∧
      knotLibrary.Storeless ⟨4⟩ .element [.integer (-1)] .null ∧
      (∃ v, knotLibrary.Storeless ⟨4⟩ .element [.integer (-1)] v ∧
        knotLibrary.invoke session "getElement" [.handle ⟨0, ⟨4⟩⟩, .integer (-1)] = .ok v) ∧
      Path.resolve session ⟨[.field "to"]⟩ ⟨0, ⟨4⟩⟩ = .error (.store .navigate ⟨4⟩ .closed) := by
  intro session session'
  have twins : Twins session session' ⟨0, ⟨4⟩⟩ ⟨1, ⟨4⟩⟩ :=
    ⟨Session.isOpen_closing _ _ _, Session.isOpen_closing _ _ _, rfl⟩
  have tells := closed_stores_tell_nothing twins
  have outside : knotLibrary.Storeless ⟨4⟩ .element [.integer (-1)] .null := .element (by decide)
  have accepted : ∀ e, ¬Function.element.Refuses [.handle ⟨0, ⟨4⟩⟩, .integer (-1)] e := by
    rintro e (length | ⟨-, checked, at_position, -, other⟩)
    · exact length rfl
    · cases checked
      cases at_position
      exact other ⟨_, rfl⟩
  refine ⟨twins, tells.2.1 _ _ _ _ (.cons (.dead twins) .nil), outside, ?_,
    tells.2.2.2.2.1 _ (by simp)⟩
  refine (tells.2.2.2.1 knotLibrary "getElement" .element _ (by decide) accepted).resolve_right ?_
  exact fun refused => refused.1 _ outside

end HeapLens
