import HeapLens.Proofs.Heap.Answers
import HeapLens.Proofs.Query.Calls
import HeapLens.Proofs.Query.Content
import HeapLens.Proofs.Store.Contents
import HeapLens.Proofs.Text.Utf16

/-!
# Texts of strings

The characters of a string lie in an array, in one of three layouts. Whatever the layout, and
whatever lies behind the characters, the text that was encoded is read; a limit only cuts it short.
A node that is no string is shown by what it boxes, or else by its class and address.
-/

set_option autoImplicit false

namespace HeapLens

open Text

variable {session : Session} {place : Nat} {s : Snapshot} {h : Heap} {x : Handle} {n a : NodeId}
  {text : List Char} {cells rest : List Cell} {coder : Option Int64}

def byteCells (unit : UInt16) : List Cell :=
  [.byte (Utf16.lowByte unit).toInt8, .byte (Utf16.highByte unit).toInt8]

/-- Whether cells hold a text: its units, their bytes, or one byte for each character. -/
inductive Encodes (coder : Option Int64) (text : List Char) : List Cell → Prop
  | units : Encodes coder text ((Utf16.encode text).map .char)
  | wide : coder.getD 0 ≠ 0 → Encodes coder text ((Utf16.encode text).flatMap byteCells)
  | narrow : coder.getD 0 = 0 → (∀ c ∈ text, c.toNat ≤ 0xFF) →
    Encodes coder text (text.map fun c => .byte (UInt8.ofNat c.toNat).toInt8)

theorem cellUnits_units (isWide : Bool) (low : Option UInt8) (units : List UInt16)
    (rest : List Cell) :
    cellUnits isWide low (units.map .char ++ rest) = units ++ cellUnits isWide low rest := by
  induction units with
  | nil => rfl
  | cons unit units ih => simp [cellUnits, ih]

theorem cellUnits_wide (units : List UInt16) (rest : List Cell) :
    cellUnits true none (units.flatMap byteCells ++ rest) = units ++ cellUnits true none rest := by
  induction units with
  | nil => rfl
  | cons unit units ih =>
    simp [byteCells, cellUnits, Utf16.ofBytes_bytes, ih]

theorem cellUnits_narrow (low : Option UInt8) (bytes : List UInt8) (rest : List Cell) :
    cellUnits false low ((bytes.map fun b => .byte b.toInt8) ++ rest) =
      bytes.map UInt8.toUInt16 ++ cellUnits false low rest := by
  induction bytes with
  | nil => rfl
  | cons b bytes ih => simp [cellUnits, ih]

theorem encode_of_narrow (narrow : ∀ c ∈ text, c.toNat ≤ 0xFF) :
    Utf16.encode text = text.map fun c => (UInt8.ofNat c.toNat).toUInt16 := by
  rw [Utf16.encode_of_small fun c mem => (narrow c mem).trans_lt (by decide)]
  refine List.map_congr_left fun c mem => UInt16.toNat_inj.mp ?_
  have bound := narrow c mem
  rw [UInt16.toNat_ofNat', UInt8.toNat_toUInt16, UInt8.toNat_ofNat']
  omega

theorem Encodes.cellUnits_append (encodes : Encodes coder text cells) (rest : List Cell) :
    cellUnits (coder.getD 0 != 0) none (cells ++ rest) =
      Utf16.encode text ++ cellUnits (coder.getD 0 != 0) none rest := by
  cases encodes with
  | units => exact cellUnits_units _ _ _ _
  | wide other =>
    rw [bne_iff_ne.mpr other]
    exact cellUnits_wide _ _
  | narrow zero small =>
    have one_byte : (coder.getD 0 != 0) = false := by simp [zero]
    have bytes := cellUnits_narrow none (text.map fun c => UInt8.ofNat c.toNat) rest
    rw [List.map_map, List.map_map] at bytes
    rw [one_byte, encode_of_narrow small]
    exact bytes

namespace Heap

def unitsOf (h : Heap) (n a : NodeId) : List UInt16 :=
  let units := cellUnits ((h.int? n "coder").getD 0 != 0) none (h.slotsOf a)
  (h.int? n "count").elim units fun count => units.take count.toInt.toNat

def charactersOf (h : Heap) (n : NodeId) : List Char :=
  match h.field? n "value" with
  | some (.text text) => text.toList
  | some (.ref a) => Utf16.decode (h.unitsOf n a)
  | _ => []

/-- The characters of a string; none for a node that is no string. -/
def string? (h : Heap) (n : NodeId) : Option (List Char) :=
  (h.typeName? n).bind fun name => if name ∈ stringClasses then some (h.charactersOf n) else none

/-- Whether the array ends behind a text that nothing counts, or else the units are counted. -/
def Bounds (h : Heap) (n : NodeId) (text : List Char) (rest : List Cell) : Prop :=
  rest = [] ∧ h.int? n "count" = none ∨
    ∃ count, h.int? n "count" = some count ∧ count.toInt = (Utf16.encode text).length

theorem readInt64_eq (has : h.Has n) (name : String) :
    h.store.readInt64 n name = .ok (h.int? n name) := by
  rw [Store.readInt64, readField_eq has]
  rfl

theorem arrayCells_eq (has : h.Has a) :
    h.store.arrayCells a (h.slotsOf a).length = .ok (h.slotsOf a) := by
  have each : ∀ i ∈ List.range (h.slotsOf a).length,
      h.store.element a (UInt32.ofNat i) = .ok (h.slotsOf a)[i]? := by
    intro i mem
    have low := List.mem_range.mp mem
    rw [element_eq has low, List.getElem?_eq_getElem low]
  have all : (List.range (h.slotsOf a).length).map ((h.slotsOf a)[·]?) = (h.slotsOf a).map some :=
    List.ext_getElem (by simp) (by simp)
  rw [Store.arrayCells, mapM_eq_ok each, all]
  simp

theorem stringUnits_eq (has : h.Has n) (has_array : h.Has a) :
    h.store.stringUnits n a = .ok (h.unitsOf n a) := by
  obtain ⟨length, told, eq⟩ := bind_eq_ok_iff.mp (lengthOf_eq has_array)
  have length_eq : length.elim 0 UInt32.toNat = (h.slotsOf a).length := Except.ok.inj eq
  rw [Store.stringUnits, told]
  simp only [ok_bind, readInt64_eq has, length_eq, arrayCells_eq has_array]
  rw [unitsOf]
  cases h.int? n "count" <;> rfl

theorem Sound.stringContent_eq (sound : h.Sound) (has : h.Has n) (limit : Option Nat) :
    h.store.stringContent n limit = .ok ((h.string? n).map (limited limit)) := by
  obtain ⟨c, name, class_eq, name_eq, type_eq⟩ := sound.exists_typeName has
  have empty : limited limit [] = "" := by cases limit <;> simp [limited]
  rw [Store.stringContent, class_eq, string?, type_eq]
  simp only [ok_bind, name_eq, readField_eq has, Option.bind_some]
  by_cases string : name ∈ stringClasses
  · rw [if_neg (not_not_intro string), if_pos string, charactersOf]
    cases value : h.field? n "value" with
    | none => simp [empty]
    | some c =>
      cases c with
      | ref a =>
        have has_array := sound.has_of_ref? (by rw [ref?, value]; rfl)
        simp [stringUnits_eq has has_array]
      | _ => simp [empty]
  · rw [if_pos string, if_neg string]
    rfl

def box? (h : Heap) (n : NodeId) : Option Cell :=
  (h.typeName? n).bind fun name => if name ∈ boxClasses then h.field? n "value" else none

theorem Sound.boxContent_eq (sound : h.Sound) (has : h.Has n) :
    h.store.boxContent n = .ok (h.box? n) := by
  obtain ⟨c, name, class_eq, name_eq, type_eq⟩ := sound.exists_typeName has
  rw [Store.boxContent, class_eq, box?, type_eq]
  simp only [ok_bind, name_eq, readField_eq has, Option.bind_some]
  split <;> rfl

theorem Bounds.take (bounds : h.Bounds n text rest) (k : Nat) : h.Bounds n text (rest.take k) :=
  bounds.imp_left fun ⟨ended, uncounted⟩ => ⟨by rw [ended, List.take_nil], uncounted⟩

theorem slotsOf_append {encoded : List Cell} (laid : h.cellsOf a = encoded ++ rest)
    (fits : encoded.length ≤ (h.cellsOf a).length % 4294967296) :
    h.slotsOf a =
      encoded ++ rest.take ((h.cellsOf a).length % 4294967296 - encoded.length) := by
  rw [slotsOf, laid, List.take_append, List.take_of_length_le (laid ▸ fits)]

theorem unitsOf_of_encodes {encoded : List Cell} (laid : h.slotsOf a = encoded ++ rest)
    (encodes : Encodes (h.int? n "coder") text encoded) (bounds : h.Bounds n text rest) :
    h.unitsOf n a = Utf16.encode text := by
  have units := encodes.cellUnits_append rest
  rw [unitsOf, laid, units]
  rcases bounds with ⟨rfl, uncounted⟩ | ⟨count, counted, eq⟩
  · simp [uncounted, cellUnits]
  · have count_eq : count.toInt.toNat = (Utf16.encode text).length := by
      rw [eq, Int.toNat_natCast]
    simp only [counted, Option.elim_some, count_eq, List.take_left]

end Heap

namespace Session.Opens

theorem stringContent_eq (opens : session.Opens place h) (within : x.Within place h)
    (limit : Int64) :
    (QueryValue.handle x).stringContent session limit =
      .ok (((h.string? x.node).map
        (limited (if 0 ≤ limit then some limit.toInt.toNat else none))).elim .null .text) := by
  rw [QueryValue.stringContent, QueryValue.askNode]
  simp only [QueryValue.handle?, opens.storeOf_eq within,
    opens.sound.stringContent_eq within.has, Task.on_ok, ok_bind]

theorem text_eq (opens : session.Opens place h) (within : x.Within place h) :
    x.text session = .ok ((h.string? x.node).elim
      ((h.box? x.node).elim (x.label session) Cell.render) String.ofList) := by
  rw [Handle.text]
  simp only [opens.storeOf_eq within, opens.sound.stringContent_eq within.has,
    opens.sound.boxContent_eq within.has, Task.on_ok, ok_bind]
  cases h.string? x.node with
  | some text => rfl
  | none => cases h.box? x.node <;> rfl

theorem display_of_string (opens : session.Opens place h) (within : x.Within place h)
    (found : h.string? x.node = some text) :
    (QueryValue.handle x).display session = .ok (.text (String.ofList text)) := by
  rw [QueryValue.display, QueryValue.displayText, opens.text_eq within, found]
  rfl

theorem label_eq (opens : session.Opens place h) (within : x.Within place h) :
    ∃ name address, h.typeName? x.node = some name ∧ h.store.address x.node = .ok address ∧
      x.label session = name ++ "@" ++ Text.address address := by
  obtain ⟨c, name, class_eq, name_eq, type_eq⟩ := opens.sound.exists_typeName within.has
  obtain ⟨address, told, -⟩ := (Heap.address_succeeds within.has).exists_eq
  refine ⟨name, address, type_eq, told, ?_⟩
  rw [Handle.label, opens.storeOf_eq within]
  simp only [Handle.className, class_eq, ok_bind, name_eq, told]

theorem display_eq_label (opens : session.Opens place h) (within : x.Within place h)
    (no_string : h.string? x.node = none) (no_box : h.box? x.node = none) :
    (QueryValue.handle x).display session = .ok (.text (x.label session)) := by
  rw [QueryValue.display, QueryValue.displayText, opens.text_eq within, no_string, no_box]
  rfl

theorem display_of_plain (opens : session.Opens place h) (within : x.Within place h)
    (no_string : h.string? x.node = none) (no_box : h.box? x.node = none) :
    ∃ name address, h.typeName? x.node = some name ∧ h.store.address x.node = .ok address ∧
      (QueryValue.handle x).display session =
        .ok (.text (name ++ "@" ++ Text.address address)) := by
  obtain ⟨name, address, type_eq, told, label_eq⟩ := opens.label_eq within
  exact ⟨name, address, type_eq, told, label_eq ▸ opens.display_eq_label within no_string no_box⟩

end Session.Opens

variable {limit : Int64}

theorem unlimited_of_neg (negative : limit < 0) :
    (if 0 ≤ limit then some limit.toInt.toNat else none) = none := by
  rw [if_neg]
  simp only [Int64.lt_iff_toInt_lt, Int64.le_iff_toInt_le] at negative ⊢
  omega

theorem Library.invoke_display (l : Library) (session : Session) (v : QueryValue) :
    l.invoke session "toString" [v] = v.display session :=
  invoke_of_find? (f := .display) (by decide +kernel)

theorem Library.invoke_stringContent (l : Library) (session : Session) (v : QueryValue)
    (limit : Int64) :
    l.invoke session "getStringContent" [v, .integer limit] = v.stringContent session limit :=
  invoke_of_find? (f := .stringContent) (by decide +kernel)

theorem Library.invoke_valueAt (l : Library) (session : Session) (x : Handle) (key : String) :
    l.invoke session "getByKey" [.handle x, .text key] = l.catalog.valueAt session x key :=
  invoke_of_find? (f := .valueAt) (by decide +kernel)

/--
The text that the array of a string encodes is the text of the string, whichever the layout, if the
array ends behind the text or its units are counted, and the low 32 bits of its length reach to the
end of the text. A limit yields the first characters of the text without a limit, for all nodes, and
nothing where there is no text.
-/
theorem strings_read_back (accepted : Heap.ofSnapshot s = .ok h)
    (opened : session.storeAt place = .ok h.store) (within : x.Within place h) (l : Library) :
    (∀ (name text : String) (a : NodeId) (encoded rest : List Cell),
      h.typeName? x.node = some name → name ∈ stringClasses →
      h.ref? x.node "value" = some a → h.cellsOf a = encoded ++ rest →
      encoded.length ≤ (h.cellsOf a).length % 4294967296 →
      Encodes (h.int? x.node "coder") text.toList encoded → h.Bounds x.node text.toList rest →
        l.invoke session "toString" [.handle x] = .ok (.text text) ∧
        ∀ limit < 0,
          l.invoke session "getStringContent" [.handle x, .integer limit] = .ok (.text text)) ∧
      ∃ content : Option String,
        (∀ limit < 0, l.invoke session "getStringContent" [.handle x, .integer limit] =
          .ok (content.elim .null .text)) ∧
        ∀ limit ≥ 0, l.invoke session "getStringContent" [.handle x, .integer limit] =
          .ok ((content.map fun text =>
            String.ofList (text.toList.take limit.toInt.toNat)).elim .null .text) := by
  have opens : session.Opens place h := ⟨Heap.sound_of_ofSnapshot accepted, opened⟩
  simp only [Library.invoke_display, Library.invoke_stringContent, opens.stringContent_eq within]
  refine ⟨?_, (h.string? x.node).map String.ofList, fun limit negative => ?_, fun limit low => ?_⟩
  · intro name text a encoded rest type_eq string refers laid fits encodes bounds
    have read := Heap.slotsOf_append laid fits
    have value : h.field? x.node "value" = some (.ref a) := by
      obtain ⟨c, at_node, is_ref⟩ := Option.bind_eq_some_iff.mp refers
      cases c <;> simp_all [Cell.ref?]
    have found : h.string? x.node = some text.toList := by
      simp [Heap.string?, type_eq, string, Heap.charactersOf, value,
        Heap.unitsOf_of_encodes read encodes (bounds.take _), Utf16.decode_encode]
    refine ⟨?_, fun limit negative => ?_⟩
    · rw [opens.display_of_string within found, String.ofList_toList]
    · rw [unlimited_of_neg negative, found]
      simp [limited]
  · rw [unlimited_of_neg negative]
    rfl
  · rw [if_pos low]
    cases h.string? x.node <;> simp [limited]

/-- The letter of a text whose array has 2^32 slots is not read. -/
theorem strings_hoard :
    ∃ h, Heap.ofSnapshot (Heap.hoard 4294967295) = .ok h ∧
      h.typeName? ⟨5⟩ = some "java.lang.String" ∧ h.ref? ⟨5⟩ "value" = some ⟨6⟩ ∧
      h.cellsOf ⟨6⟩ = (Utf16.encode ['a']).map .char ++ List.replicate 4294967295 .null ∧
      h.int? ⟨5⟩ "count" = some 1 ∧
      knotLibrary.invoke (Session.empty.opening h.store) "toString" [.handle ⟨0, ⟨5⟩⟩] =
        .ok (.text "") := by
  obtain ⟨h, accepted⟩ := Heap.exists_of_valid (Heap.valid_hoard 4294967295)
  have opens : (Session.empty.opening h.store).Opens 0 h := ⟨Heap.sound_of_ofSnapshot accepted, rfl⟩
  have has : h.Has ⟨5⟩ := (Heap.has_iff_of_ofSnapshot accepted).mpr (by decide)
  have string := Heap.shape?_of_describes accepted (n := ⟨5⟩) rfl
  have cells : h.cellsOf ⟨6⟩ = .char 0x61 :: List.replicate 4294967295 .null :=
    Heap.cellsOf_eq (Heap.shape?_of_describes accepted (n := ⟨6⟩) rfl)
  have type_eq : h.typeName? ⟨5⟩ = some "java.lang.String" := by
    have described : (Heap.hoard 4294967295).Describes ⟨5⟩ _ := rfl
    rw [Heap.typeName?_of_holds (Heap.holds_complete accepted described)]
    exact congrArg (·.bind Shape.className?) (Heap.shape?_of_describes accepted (n := ⟨1⟩) rfl)
  have refers : h.ref? ⟨5⟩ "value" = some ⟨6⟩ := by
    rw [Heap.ref?, Heap.field?, Heap.fieldsOf, string]
    rfl
  have count : h.int? ⟨5⟩ "count" = some 1 := by
    rw [Heap.int?, Heap.field?, Heap.fieldsOf, string]
    rfl
  have none_read : h.slotsOf ⟨6⟩ = [] :=
    Heap.slotsOf_eq_nil (by rw [cells, List.length_cons, List.length_replicate])
  have value : h.field? ⟨5⟩ "value" = some (.ref ⟨6⟩) := by
    rw [Heap.field?, Heap.fieldsOf, string]
    rfl
  have empty : h.string? ⟨5⟩ = some [] := by
    simp [Heap.string?, type_eq, stringClasses, Heap.charactersOf, value, Heap.unitsOf, none_read,
      count, cellUnits, Utf16.decode]
  refine ⟨h, accepted, type_eq, refers, cells, count, ?_⟩
  exact (Library.invoke_display _ _ _).trans (opens.display_of_string ⟨rfl, has⟩ empty)

def clef : String := String.ofList ['a', Char.ofNat 0x1D11E]

def clefs : Snapshot where
  nodes :=
    [⟨.classNode "java.lang.String" none none [], none, none⟩,
      ⟨.classNode "java.lang.StringBuilder" none none [], none, none⟩,
      ⟨.plain ⟨0⟩ [⟨"value", .ref ⟨3⟩, none⟩, ⟨"coder", .byte 1, none⟩], none, none⟩,
      ⟨.array ⟨0⟩ [.byte 0x61, .byte 0, .byte 0x34, .byte (-0x28), .byte 0x1E, .byte (-0x23)],
        none, none⟩,
      ⟨.plain ⟨1⟩ [⟨"value", .ref ⟨5⟩, none⟩, ⟨"count", .int 3, none⟩], none, none⟩,
      ⟨.array ⟨0⟩ [.char 0x61, .char 0xD834, .char 0xDD1E, .char 0xD834], none, none⟩]
  roots := [⟨2⟩, ⟨4⟩]

def clefsHeap : Heap := Heap.assemble (Heap.recordsOfSnapshot clefs) clefs.roots

def clefsSession : Session := Session.empty.opening clefsHeap.store

theorem ofSnapshot_clefs : Heap.ofSnapshot clefs = .ok clefsHeap :=
  Heap.ofSnapshot_of_defect? (by decide +kernel)

theorem strings_clefs :
    Heap.ofSnapshot clefs = .ok clefsHeap ∧
      knotLibrary.invoke clefsSession "toString" [.handle ⟨0, ⟨2⟩⟩] = .ok (.text clef) ∧
      knotLibrary.invoke clefsSession "getStringContent" [.handle ⟨0, ⟨4⟩⟩, .integer (-1)] =
        .ok (.text clef) := by
  have two : clefsHeap.Has ⟨2⟩ := (Heap.has_iff_of_ofSnapshot ofSnapshot_clefs).mpr (by decide)
  have four : clefsHeap.Has ⟨4⟩ := (Heap.has_iff_of_ofSnapshot ofSnapshot_clefs).mpr (by decide)
  have wide := (strings_read_back ofSnapshot_clefs (x := ⟨0, ⟨2⟩⟩)
    (rfl : clefsSession.storeAt 0 = _) ⟨rfl, two⟩ knotLibrary).1
  have counted := (strings_read_back ofSnapshot_clefs (x := ⟨0, ⟨4⟩⟩)
    (rfl : clefsSession.storeAt 0 = _) ⟨rfl, four⟩ knotLibrary).1
  have bytes := Heap.cellsOf_eq (Heap.shape?_of_describes ofSnapshot_clefs (n := ⟨3⟩) rfl)
  have units := Heap.cellsOf_eq (Heap.shape?_of_describes ofSnapshot_clefs (n := ⟨5⟩) rfl)
  refine ⟨ofSnapshot_clefs, ?_, ?_⟩
  · refine (wide "java.lang.String" clef ⟨3⟩ ((Utf16.encode clef.toList).flatMap byteCells) []
      (by decide +kernel) (by decide +kernel) (by decide +kernel) ?_ ?_ ?_ ?_).1
    · exact bytes.trans (by decide +kernel)
    · rw [bytes]
      decide +kernel
    · exact .wide (by decide +kernel)
    · exact .inl ⟨rfl, by decide +kernel⟩
  · refine (counted "java.lang.StringBuilder" clef ⟨5⟩ ((Utf16.encode clef.toList).map .char)
      [.char 0xD834] (by decide +kernel) (by decide +kernel) (by decide +kernel) ?_ ?_
      .units ?_).2 (-1) (by decide)
    · exact units.trans (by decide +kernel)
    · rw [units]
      decide +kernel
    · exact .inr ⟨3, by decide +kernel, by decide +kernel⟩

end HeapLens
