import HeapLens.Proofs.Collection.KeySearch
import HeapLens.Proofs.Number.Layout
import HeapLens.Proofs.Query.StringText

set_option autoImplicit false

namespace HeapLens

variable {c : Catalog} {session : Session} {place : Nat} {s : Snapshot} {h : Heap}
  {x y z owner owner' : Handle} {view view' : MapView} {cell vc : Cell} {name text : String}

namespace Cell

/-- Whether a cell holds what a box can hold. -/
def IsPrimitive : Cell → Prop
  | .bool _ | .byte _ | .char _ | .short _ | .int _ | .long _ | .float _ | .double _ => True
  | _ => False

/-- Whether a primitive is shown by the same text as a cell and as a value. -/
def ShownAlike : Cell → Prop
  | .char unit => Text.Utf16.isHigh unit = false ∧ Text.Utf16.isLow unit = false
  | .float x => x.value.WrittenAs .single .double x.widen.value
  | .double x => x.value.HasOneText .double
  | _ => True

instance : (cell : Cell) → Decidable cell.ShownAlike
  | .char _ => inferInstanceAs (Decidable (_ ∧ _))
  | .float x => inferInstanceAs (Decidable (x.value.WrittenAs .single .double x.widen.value))
  | .double x => inferInstanceAs (Decidable (x.value.HasOneText .double))
  | .null | .bool _ | .byte _ | .short _ | .int _ | .long _ | .text _ | .ref _ | .wide _
  | .unclassified _ => .isTrue trivial

theorem unitText_eq_iff (unit : UInt16) :
    unitText unit = String.ofList [Text.Utf16.single unit] ↔
      Text.Utf16.isHigh unit = false ∧ Text.Utf16.isLow unit = false := by
  rw [← Bool.or_eq_false_iff, unitText, Text.Utf16.single]
  by_cases half : (Text.Utf16.isHigh unit || Text.Utf16.isLow unit) = true
  · rw [if_pos half, if_pos half, half]
    refine iff_of_false (fun eq => ?_) (by simp)
    have first := congrArg (fun text => text.toList.head?) eq
    simp [Text.Utf16.replacement] at first
  · rw [if_neg half, if_neg half]
    exact iff_of_true rfl (Bool.not_eq_true _ ▸ half)

end Cell

/-- The value of a primitive, which does not depend on where the primitive is found. -/
theorem exists_value_of_isPrimitive (primitive : cell.IsPrimitive) (session : Session) :
    ∃ v, (∀ owner, QueryValue.ofCell owner cell = .ok v) ∧
      v.displayText session = .ok (some (v.render session)) ∧
      (cell.render = v.render session ↔ cell.ShownAlike) := by
  cases cell with
  | bool b => exact ⟨.boolean b, fun _ => rfl, rfl, iff_of_true rfl trivial⟩
  | byte v | short v | int v =>
    refine ⟨.integer v.toInt64, fun _ => rfl, rfl, iff_of_true ?_ trivial⟩
    simp [Cell.render, QueryValue.render]
  | long v => exact ⟨.integer v, fun _ => rfl, rfl, iff_of_true rfl trivial⟩
  | char unit => exact ⟨.text _, fun _ => rfl, rfl, Cell.unitText_eq_iff unit⟩
  | float x => exact ⟨.real x.widen, fun _ => rfl, rfl, Number.Layout.render_plain_eq_diagnostic_iff⟩
  | double x =>
    refine ⟨.real x, fun _ => rfl, rfl, ?_⟩
    exact Number.Layout.render_plain_eq_diagnostic_iff.trans Number.Value.writtenAs_self_iff
  | _ => exact primitive.elim

example : ¬(Cell.float ⟨0x3DCCCCCD⟩).ShownAlike := by decide +kernel

namespace Session.Opens

theorem displayText_of_box (opens : session.Opens place h) (within : x.Within place h)
    (type_eq : h.typeName? x.node = some name) (box : name ∈ boxClasses)
    (value : h.field? x.node "value" = some cell) :
    (QueryValue.handle x).displayText session = .ok (some cell.render) := by
  have disjoint : ∀ name ∈ boxClasses, name ∉ stringClasses := by decide +kernel
  have no_string : h.string? x.node = none := by simp [Heap.string?, type_eq, disjoint name box]
  have boxed : h.box? x.node = some cell := by simp [Heap.box?, type_eq, box, value]
  rw [QueryValue.displayText, opens.text_eq within, no_string, boxed]
  rfl

end Session.Opens

/-- Whether a node is read as a map with these entries. -/
def Catalog.HasEntries (c : Catalog) (session : Session) (y : Handle)
    (entries : List (Except Fault (Cell × Cell))) : Prop :=
  ∃ view cells, c.map? session y = .ok (some view) ∧ view.cells = .ok cells ∧
    cells.toList = entries

theorem QueryValue.ofCell_congr (same : owner.store = owner'.store) (cell : Cell) :
    ofCell owner cell = ofCell owner' cell := by
  cases cell with
  | ref node => simp [ofCell, Handle.sibling, same]
  | _ => rfl

theorem Catalog.searchEnd_congr (same : view.owner.store = view'.owner.store)
    (item : Except Fault (Cell × Cell)) :
    (searchEnd session view text item).map Except.toOption =
      (searchEnd session view' text item).map Except.toOption := by
  rcases item with fault | ⟨kc, vc⟩
  · rfl
  · have eq : matchEntry session view text (.ok (kc, vc)) =
        matchEntry session view' text (.ok (kc, vc)) := by
      simp only [matchEntry, Task.on_ok, ok_bind, QueryValue.ofCell_congr same]
    rw [searchEnd, searchEnd, eq]

theorem Catalog.toOption_valueAt {entries : List (Except Fault (Cell × Cell))}
    (entries_eq : c.HasEntries session y entries) :
    ∃ view : MapView, view.owner = y ∧ ∀ text, (c.valueAt session y text).toOption =
      (entries.findSome? fun item => (searchEnd session view text item).map Except.toOption).getD
        (some .null) := by
  obtain ⟨view, cells, found, read, rfl⟩ := entries_eq
  refine ⟨view, owner_of_map? found, fun text => ?_⟩
  rw [valueAt_eq found read, ← Option.getD_map Except.toOption, List.map_findSome?]
  rfl

theorem Catalog.valueAt_of_alike_key {before after : List (Except Fault (Cell × Cell))}
    {item item' : Except Fault (Cell × Cell)} (same : y.store = z.store)
    (entries : c.HasEntries session y (before ++ item :: after))
    (entries' : c.HasEntries session z (before ++ item' :: after))
    (alike : ∀ view : MapView, view.owner = y →
      matchEntry session view text item = matchEntry session view text item') :
    (c.valueAt session y text).toOption = (c.valueAt session z text).toOption := by
  obtain ⟨view, owner_eq, found⟩ := toOption_valueAt entries
  obtain ⟨view', owner_eq', found'⟩ := toOption_valueAt entries'
  have goes_on : (fun item => (searchEnd session view text item).map Except.toOption) =
      fun item => (searchEnd session view' text item).map Except.toOption :=
    funext fun item => searchEnd_congr (by rw [owner_eq, owner_eq', same]) item
  have here : searchEnd session view text item = searchEnd session view text item' := by
    rw [searchEnd, searchEnd, alike view owner_eq]
  rw [found, found', ← goes_on]
  simp only [List.findSome?_append, List.findSome?_cons, here]

theorem Catalog.matchEntry_of_displayText {kc : Cell} {k : QueryValue} {shown : String}
    (key_eq : QueryValue.ofCell view.owner kc = .ok k)
    (shown_eq : k.displayText session = .ok (some shown)) :
    matchEntry session view text (.ok (kc, vc)) =
      if shown = text then (QueryValue.ofCell view.owner vc).map some else .ok none := by
  simp [matchEntry, key_eq, shown_eq]

/--
A box is shown like the primitive in it exactly if the primitive has one text. Then a map finds an
entry by the same text whether the key is the box or the primitive, and else there is a text that
tells the two apart.
-/
theorem boxes_show_their_primitives (accepted : Heap.ofSnapshot s = .ok h)
    (opened : session.storeAt place = .ok h.store) (within : x.Within place h) (l : Library)
    (type_eq : h.typeName? x.node = some name) (box : name ∈ boxClasses)
    (value : h.field? x.node "value" = some cell) (primitive : cell.IsPrimitive) :
    (∃ v, QueryValue.ofCell x cell = .ok v ∧
      (l.invoke session "toString" [.handle x] = l.invoke session "toString" [v] ↔
        cell.ShownAlike)) ∧
    (∀ view : MapView, view.owner.store = place →
      ((∀ text vc, Catalog.matchEntry session view text (.ok (.ref x.node, vc)) =
        Catalog.matchEntry session view text (.ok (cell, vc))) ↔ cell.ShownAlike)) ∧
    (cell.ShownAlike → ∀ y z vc before after, y.store = place → z.store = place →
      l.catalog.HasEntries session y (before ++ .ok (.ref x.node, vc) :: after) →
      l.catalog.HasEntries session z (before ++ .ok (cell, vc) :: after) →
      ∀ text, (l.invoke session "getByKey" [.handle y, .text text]).toOption =
        (l.invoke session "getByKey" [.handle z, .text text]).toOption) := by
  have opens : session.Opens place h := ⟨Heap.sound_of_ofSnapshot accepted, opened⟩
  have boxed := opens.displayText_of_box within type_eq box value
  obtain ⟨v, converted, shown, alike_iff⟩ := exists_value_of_isPrimitive primitive session
  have handle_eq {owner : Handle} (inside : owner.store = place) : owner.sibling x.node = x := by
    rw [Handle.sibling, inside, ← within.store_eq]
  have match_box {view : MapView} (inside : view.owner.store = place) (text : String) (vc : Cell) :
      Catalog.matchEntry session view text (.ok (.ref x.node, vc)) =
        if cell.render = text then (QueryValue.ofCell view.owner vc).map some else .ok none :=
    Catalog.matchEntry_of_displayText (by rw [QueryValue.ofCell, handle_eq inside]) boxed
  have match_inline (view : MapView) (text : String) (vc : Cell) :
      Catalog.matchEntry session view text (.ok (cell, vc)) =
        if v.render session = text then (QueryValue.ofCell view.owner vc).map some else .ok none :=
    Catalog.matchEntry_of_displayText (converted view.owner) shown
  refine ⟨⟨v, converted x, ?_⟩, fun view inside => ?_, ?_⟩
  · rw [Library.invoke_display, Library.invoke_display, QueryValue.display, QueryValue.display,
      boxed, shown, ← alike_iff]
    simp
  · simp only [match_box inside, match_inline, ← alike_iff]
    refine ⟨fun same => ?_, fun same text vc => by rw [same]⟩
    by_contra differs
    have found := same cell.render .null
    rw [if_pos rfl, if_neg (Ne.symm differs)] at found
    cases found
  · intro alike y z vc before after inside inside' entries entries' text
    rw [Library.invoke_valueAt, Library.invoke_valueAt]
    have same : y.store = z.store := inside.trans inside'.symm
    refine Catalog.valueAt_of_alike_key same entries entries' fun view owner_eq => ?_
    rw [match_box (owner_eq ▸ inside), match_inline, alike_iff.mpr alike]

def twins : Snapshot where
  nodes :=
    [⟨.classNode "java.lang.Double" none none [], none, none⟩,
      ⟨.classNode "java.util.HashMap" none none [], none, none⟩,
      ⟨.classNode "Entry" none none [], none, none⟩,
      ⟨.plain ⟨0⟩ [⟨"value", .double half, none⟩], none, none⟩,
      ⟨.plain ⟨0⟩ [⟨"value", .double one, none⟩], none, none⟩,
      ⟨.plain ⟨2⟩ [⟨"key", .ref ⟨3⟩, none⟩, ⟨"value", .int 5, none⟩], none, none⟩,
      ⟨.plain ⟨2⟩ [⟨"key", .double half, none⟩, ⟨"value", .int 5, none⟩], none, none⟩,
      ⟨.plain ⟨2⟩ [⟨"key", .ref ⟨4⟩, none⟩, ⟨"value", .int 10, none⟩], none, none⟩,
      ⟨.plain ⟨2⟩ [⟨"key", .double one, none⟩, ⟨"value", .int 10, none⟩], none, none⟩,
      ⟨.array ⟨2⟩ [.ref ⟨5⟩], none, none⟩,
      ⟨.array ⟨2⟩ [.ref ⟨6⟩], none, none⟩,
      ⟨.array ⟨2⟩ [.ref ⟨7⟩], none, none⟩,
      ⟨.array ⟨2⟩ [.ref ⟨8⟩], none, none⟩,
      ⟨.plain ⟨1⟩ [⟨"size", .int 1, none⟩, ⟨"table", .ref ⟨9⟩, none⟩], none, none⟩,
      ⟨.plain ⟨1⟩ [⟨"size", .int 1, none⟩, ⟨"table", .ref ⟨10⟩, none⟩], none, none⟩,
      ⟨.plain ⟨1⟩ [⟨"size", .int 1, none⟩, ⟨"table", .ref ⟨11⟩, none⟩], none, none⟩,
      ⟨.plain ⟨1⟩ [⟨"size", .int 1, none⟩, ⟨"table", .ref ⟨12⟩, none⟩], none, none⟩]
  roots := []
where
  half := ⟨0x3FE0000000000000⟩
  one := ⟨0x3FF0000000000000⟩

def twinsHeap : Heap := Heap.assemble (Heap.recordsOfSnapshot twins) twins.roots

def twinsSession : Session := Session.empty.opening twinsHeap.store

theorem ofSnapshot_twins : Heap.ofSnapshot twins = .ok twinsHeap :=
  Heap.ofSnapshot_of_defect? (by decide +kernel)

theorem boxes_twins :
    Heap.ofSnapshot twins = .ok twinsHeap ∧ twinsSession.storeAt 0 = .ok twinsHeap.store ∧
      Handle.Within ⟨0, ⟨3⟩⟩ 0 twinsHeap ∧ (Cell.double twins.half).ShownAlike ∧
      knotLibrary.invoke twinsSession "toString" [.handle ⟨0, ⟨3⟩⟩] =
        knotLibrary.invoke twinsSession "toString" [.real twins.half] ∧
      (knotLibrary.invoke twinsSession "getByKey" [.handle ⟨0, ⟨13⟩⟩, .text "0.5"]).toOption =
        (knotLibrary.invoke twinsSession "getByKey" [.handle ⟨0, ⟨14⟩⟩, .text "0.5"]).toOption := by
  have opened : twinsSession.storeAt 0 = .ok twinsHeap.store := rfl
  have within : Handle.Within ⟨0, ⟨3⟩⟩ 0 twinsHeap :=
    ⟨rfl, (Heap.has_iff_of_ofSnapshot ofSnapshot_twins).mpr (by decide)⟩
  have fractional : (Cell.double twins.half).ShownAlike := by decide +kernel
  have type_eq : twinsHeap.typeName? ⟨3⟩ = some "java.lang.Double" := by decide +kernel
  have value : twinsHeap.field? ⟨3⟩ "value" = some (.double twins.half) := by decide +kernel
  obtain ⟨⟨v, converted, shown⟩, -, found⟩ := boxes_show_their_primitives ofSnapshot_twins opened
    within knotLibrary type_eq (by decide +kernel) value trivial
  obtain rfl : QueryValue.real twins.half = v := Except.ok.inj converted
  refine ⟨ofSnapshot_twins, opened, within, fractional, shown.mpr fractional, ?_⟩
  exact found fractional ⟨0, ⟨13⟩⟩ ⟨0, ⟨14⟩⟩ (.int 5) [] [] rfl rfl
    ⟨_, _, rfl, rfl, by decide +kernel⟩ ⟨_, _, rfl, rfl, by decide +kernel⟩ "0.5"

/-- The number one is written `1` as a cell and `1.0` as a value, and found by that text only. -/
theorem boxes_twins_differ :
    Heap.ofSnapshot twins = .ok twinsHeap ∧
      twinsHeap.typeName? ⟨4⟩ = some "java.lang.Double" ∧
      twinsHeap.field? ⟨4⟩ "value" = some (.double twins.one) ∧
      QueryValue.ofCell ⟨0, ⟨4⟩⟩ (.double twins.one) = .ok (.real twins.one) ∧
      knotLibrary.invoke twinsSession "toString" [.handle ⟨0, ⟨4⟩⟩] = .ok (.text "1") ∧
      knotLibrary.invoke twinsSession "toString" [.real twins.one] = .ok (.text "1.0") ∧
      knotLibrary.invoke twinsSession "getByKey" [.handle ⟨0, ⟨15⟩⟩, .text "1.0"] = .ok .null ∧
      knotLibrary.invoke twinsSession "getByKey" [.handle ⟨0, ⟨16⟩⟩, .text "1.0"] =
        .ok (.integer 10) := by
  refine ⟨ofSnapshot_twins, ?_, ?_, rfl, ?_, ?_, ?_, ?_⟩ <;> decide +kernel

end HeapLens
