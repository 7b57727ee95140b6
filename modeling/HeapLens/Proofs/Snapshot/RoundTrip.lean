import HeapLens.Proofs.Json.RoundTrip
import HeapLens.Snapshot.Printer
import HeapLens.Snapshot.Reader

set_option autoImplicit false

namespace HeapLens

def Recovers {α : Type} (write : α → Option Json) (read : Json → Option α) (depth : Nat) (a : α) :
    Prop :=
  ∃ j, write a = some j ∧ read j = some a ∧ j.Plain depth

variable {α : Type} {write : α → Option Json} {read : Json → Option α} {depth : Nat}

theorem Recovers.mapM (as : List α) (recovers : ∀ a ∈ as, Recovers write read depth a) :
    ∃ js, as.mapM write = some js ∧ js.mapM read = some as ∧ ∀ j ∈ js, j.Plain depth := by
  induction as with
  | nil => exact ⟨[], rfl, rfl, nofun⟩
  | cons a as ih =>
    obtain ⟨j, written, is_read, plain⟩ := recovers a List.mem_cons_self
    obtain ⟨js, written_rest, read_rest, plain_rest⟩ :=
      ih fun a mem => recovers a (List.mem_cons_of_mem _ mem)
    refine ⟨j :: js, ?_, ?_, List.forall_mem_cons.mpr ⟨plain, plain_rest⟩⟩
    · simp [List.mapM_cons, written, written_rest]
    · simp [List.mapM_cons, is_read, read_rest]

theorem Recovers.list {as : List α} (recovers : ∀ a ∈ as, Recovers write read depth a) :
    Recovers (fun as => (as.mapM write).map .array) (Json.list? read) (depth + 1) as := by
  obtain ⟨js, written, is_read, plain⟩ := Recovers.mapM as recovers
  exact ⟨.array js, by simp [written], is_read, .array plain⟩

theorem Json.optional?_optional {write : α → Json} (o : Option α)
    (recovers : ∀ a, read (write a) = some a) (present : ∀ a, write a ≠ .null) :
    Json.optional? read (some (.optional write o)) = some o := by
  cases o with
  | none => rfl
  | some a =>
    change Json.nullable read (write a) = some (some a)
    unfold Json.nullable
    split
    · exact absurd ‹_› (present a)
    · rw [recovers]
      rfl

theorem Json.Plain.optional {write : α → Json} (o : Option α)
    (plain : ∀ a, (write a).Plain depth) : (Json.optional write o).Plain depth := by
  cases o with
  | none => exact .null
  | some a => exact plain a

theorem NodeId.plain_toJson (id : NodeId) : id.toJson.Plain depth := .number trivial

theorem NodeId.recovers (depth : Nat) (id : NodeId) :
    Recovers (fun id => some id.toJson) NodeId.ofJson? depth id :=
  ⟨id.toJson, rfl, rfl, id.plain_toJson⟩

namespace Cell

def IsExact : Cell → Prop
  | .float _ => False
  | .double _ => False
  | .wide _ => False
  | _ => True

theorem ofJson?_tagged (place : Place) (tag : String) (content : Json) :
    ofJson? place (tagged tag content) = ofTagged? tag (some content) := rfl

theorem plain_tagged (tag : String) {content : Json} (plain : content.Plain depth) :
    (tagged tag content).Plain (depth + 1) :=
  .object (by simp [plain, Json.Plain.text])

theorem recovers_tagged {c : Cell} {tag : String} {content : Json} (place : Place)
    (written : c.toJson? = some (tagged tag content))
    (read : ofTagged? tag (some content) = some c) (plain : content.Plain depth) :
    Recovers toJson? (ofJson? place) (depth + 1) c :=
  ⟨_, written, (ofJson?_tagged place tag content).trans read, plain_tagged tag plain⟩

theorem recovers_signed {c : Cell} {tag : String} {n : Int64} {low high : Int} (place : Place)
    (make : Int → Cell) (written : c.toJson? = some (tagged tag (.int n)))
    (reads : ∀ j, ofTagged? tag (some j) = (Json.intIn? low high j).map make)
    (range : low ≤ n.toInt ∧ n.toInt ≤ high) (back : make n.toInt = c) :
    Recovers toJson? (ofJson? place) (depth + 1) c := by
  refine recovers_tagged place written ?_ (.int n)
  rw [reads, Json.intIn?_int range.1 range.2, Option.map_some, back]

theorem recovers (depth : Nat) {c : Cell} (exact : c.IsExact) (place : Place) :
    Recovers toJson? (ofJson? place) (depth + 1) c := by
  cases c with
  | null => exact ⟨_, rfl, rfl, .object (by simp [Json.Plain.text])⟩
  | bool b => exact recovers_tagged place rfl rfl (.bool b)
  | byte v =>
    have range : -128 ≤ v.toInt64.toInt ∧ v.toInt64.toInt ≤ 127 := by
      have least := v.le_toInt
      have greatest := v.toInt_lt
      rw [Int8.toInt_toInt64]
      omega
    exact recovers_signed place (fun n => .byte (Int8.ofInt n)) rfl (fun _ => rfl) range (by simp)
  | char unit =>
    have range := unit.toNat_lt
    refine recovers_tagged place rfl ?_ (.number trivial)
    have read : (Json.nat unit.toUInt64).intIn? 0 65535 = some (unit.toNat : Int) := by
      simp only [Json.intIn?, Json.nat, Json.int?, UInt16.toNat_toUInt64, Option.filter_some]
      rw [if_pos (by simp; omega)]
    simp [ofTagged?, read]
  | short v =>
    have range : -32768 ≤ v.toInt64.toInt ∧ v.toInt64.toInt ≤ 32767 := by
      have least := v.le_toInt
      have greatest := v.toInt_lt
      rw [Int16.toInt_toInt64]
      omega
    exact recovers_signed place (fun n => .short (Int16.ofInt n)) rfl (fun _ => rfl) range (by simp)
  | int v =>
    have range : -2147483648 ≤ v.toInt64.toInt ∧ v.toInt64.toInt ≤ 2147483647 := by
      have least := v.le_toInt
      have greatest := v.toInt_lt
      rw [Int32.toInt_toInt64]
      omega
    exact recovers_signed place (fun n => .int (Int32.ofInt n)) rfl (fun _ => rfl) range (by simp)
  | long v =>
    have range : -9223372036854775808 ≤ v.toInt ∧ v.toInt ≤ 9223372036854775807 := by
      have least := v.le_toInt
      have greatest := v.toInt_lt
      omega
    exact recovers_signed place (fun n => .long (Int64.ofInt n)) rfl (fun _ => rfl) range (by simp)
  | text s => exact recovers_tagged place rfl rfl (.text s)
  | ref node => exact recovers_tagged place rfl rfl node.plain_toJson
  | unclassified typeName => exact recovers_tagged place rfl rfl (.text typeName)
  | float | double | wide => cases exact

end Cell

theorem Field.recovers (depth : Nat) {f : Field} (exact : f.cell.IsExact) :
    Recovers Field.toJson? Field.ofJson? (depth + 2) f := by
  obtain ⟨name, cell, declaredBy⟩ := f
  obtain ⟨j, written, read, plain⟩ := Cell.recovers depth exact .inNode
  dsimp only at written read
  cases declaredBy with
  | none =>
    refine ⟨.object [("name", .text name), ("value", j)], ?_, ?_, .object ?_⟩
    · simp [Field.toJson?, written]
    · change (Cell.ofJson? .inNode j >>= fun cell => some (Field.mk name cell none)) = _
      rw [read]
      rfl
    · simp [plain, Json.Plain.text]
  | some declarer =>
    refine ⟨.object [("name", .text name), ("value", j), ("declared_by", declarer.toJson)], ?_, ?_,
      .object ?_⟩
    · simp [Field.toJson?, written]
    · change (Cell.ofJson? .inNode j >>= fun cell => some (Field.mk name cell (some declarer))) = _
      rw [read]
      rfl
    · simp [plain, Json.Plain.text, NodeId.plain_toJson]

theorem Field.recovers_list (depth : Nat) {fields : List Field}
    (exact : ∀ f ∈ fields, f.cell.IsExact) :
    Recovers Field.listToJson? (Json.list? Field.ofJson?) (depth + 3) fields :=
  Recovers.list fun f mem => Field.recovers depth (exact f mem)

namespace Node

/-- Whether no cell of a node is a real number or wider than 64 bits. -/
def IsExact (n : Node) : Prop :=
  (∀ f ∈ n.shape.fields, f.cell.IsExact) ∧ ∀ c ∈ n.shape.elements, c.IsExact

theorem optional?_word (o : Option UInt64) :
    Json.optional? Json.word? (some (.optional .nat o)) = some o :=
  Json.optional?_optional o (fun _ => rfl) fun _ => nofun

theorem optional?_nodeId (o : Option NodeId) :
    Json.optional? NodeId.ofJson? (some (.optional NodeId.toJson o)) = some o :=
  Json.optional?_optional o (fun _ => rfl) fun _ => nofun

theorem plain_word (o : Option UInt64) : (Json.optional Json.nat o).Plain depth :=
  .optional o fun _ => .number trivial

theorem plain_nodeId (o : Option NodeId) : (Json.optional NodeId.toJson o).Plain depth :=
  .optional o NodeId.plain_toJson

/-- Objects of either kind differ in the name of the kind and in what is made of the parts. -/
theorem recovers_object (kind : String) {shape : NodeId → List Field → Shape}
    (isKind : ∀ classId fields address size,
      ofJson? (.object [("kind", .text kind), ("class", classId), ("fields", fields),
          ("address", address), ("shallow", size)]) =
        objectOfJson? shape (.object [("class", classId), ("fields", fields),
          ("address", address), ("shallow", size)]))
    (written : ∀ classId fields address size, toJson? ⟨shape classId fields, address, size⟩ =
      (Field.listToJson? fields).map fun fields => .object
        [("kind", .text kind), ("class", classId.toJson), ("fields", fields),
          ("address", .optional .nat address), ("shallow", .optional .nat size)])
    (classId : NodeId) {fields : List Field} (exact : ∀ f ∈ fields, f.cell.IsExact)
    (address size : Option UInt64) :
    Recovers toJson? ofJson? (depth + 4) ⟨shape classId fields, address, size⟩ := by
  obtain ⟨j, fields_written, read, plain⟩ := Field.recovers_list depth exact
  refine ⟨.object _, by rw [written, fields_written]; rfl, ?_, .object ?_⟩
  · rw [isKind]
    change (do
      let fields ← Json.list? Field.ofJson? j
      let address ← Json.optional? Json.word? (some (.optional .nat address))
      let size ← Json.optional? Json.word? (some (.optional .nat size))
      some (Node.mk (shape classId fields) address size)) = _
    simp [optional?_word, read]
  · simp [plain, plain_word, NodeId.plain_toJson, Json.Plain.text]

theorem recovers (depth : Nat) {n : Node} (exact : n.IsExact) :
    Recovers toJson? ofJson? (depth + 4) n := by
  obtain ⟨shape, address, size⟩ := n
  cases shape with
  | classNode name superclass loader statics =>
    have own : ∀ f ∈ statics, f.cell.IsExact := exact.1
    obtain ⟨j, written, read, plain⟩ := Field.recovers_list depth own
    refine ⟨.object _, congrArg (Option.map _) written, ?_, .object ?_⟩
    · change (do
        let superclass ← Json.optional? NodeId.ofJson? (some (.optional NodeId.toJson superclass))
        let loader ← Json.optional? NodeId.ofJson? (some (.optional NodeId.toJson loader))
        let statics ← Json.list? Field.ofJson? j
        let address ← Json.optional? Json.word? (some (.optional .nat address))
        let size ← Json.optional? Json.word? (some (.optional .nat size))
        some (Node.mk (.classNode name superclass loader statics) address size)) = _
      simp [optional?_word, optional?_nodeId, read]
    · simp [plain, commonMembers, plain_word, plain_nodeId, Json.Plain.text]
  | plain classId fields =>
    exact recovers_object "instance" (fun _ _ _ _ => rfl) (fun _ _ _ _ => rfl) classId
      exact.1 address size
  | loader classId fields =>
    exact recovers_object "class_loader" (fun _ _ _ _ => rfl) (fun _ _ _ _ => rfl) classId
      exact.1 address size
  | array classId elements =>
    obtain ⟨js, written, read, plain⟩ := Recovers.mapM elements fun c mem =>
      Cell.recovers (depth + 1) (exact.2 c mem) .inNode
    refine ⟨.object _, congrArg (Option.map _) written, ?_, .object ?_⟩
    · change (do
        let elements ← Json.list? (Cell.ofJson? .inNode) (.array js)
        let address ← Json.optional? Json.word? (some (.optional .nat address))
        let size ← Json.optional? Json.word? (some (.optional .nat size))
        some (Node.mk (.array classId elements) address size)) = _
      simp [optional?_word, Json.list?, read]
    · simp [Json.Plain.array plain, commonMembers, plain_word, NodeId.plain_toJson,
        Json.Plain.text]

end Node

namespace Snapshot

def IsExact (s : Snapshot) : Prop := ∀ n ∈ s.nodes, n.IsExact

theorem recovers (depth : Nat) {s : Snapshot} (exact : s.IsExact) :
    ∃ nodes roots, s.toJson? = some (.object [("nodes", nodes), ("roots", roots)]) ∧
      ofJson? (.object [("nodes", nodes), ("roots", roots)]) = some s ∧
      (Json.object [("nodes", nodes), ("roots", roots)]).Plain (depth + 6) := by
  obtain ⟨nodes, nodes_written, nodes_read, nodes_plain⟩ :=
    Recovers.mapM s.nodes fun n mem => Node.recovers depth (exact n mem)
  obtain ⟨roots, roots_written, roots_read, roots_plain⟩ :=
    Recovers.mapM s.roots fun id _ => NodeId.recovers (depth + 4) id
  obtain rfl : s.roots.map NodeId.toJson = roots :=
    Option.some.inj (List.mapM_pure.symm.trans roots_written)
  refine ⟨.array nodes, .array (s.roots.map NodeId.toJson), ?_, ?_, .object ?_⟩
  · simp [toJson?, nodes_written]
  · change (do
      let nodes ← Json.list? Node.ofJson? (.array nodes)
      let roots ← Json.list? NodeId.ofJson? (.array (s.roots.map NodeId.toJson))
      some (Snapshot.mk nodes roots)) = _
    simp [Json.list?, nodes_read, roots_read]
  · simp [Json.Plain.array nodes_plain, Json.Plain.array roots_plain]

/-- An exact snapshot is written, and what is written is read as the snapshot. -/
theorem read_rendered {s : Snapshot} (exact : s.IsExact) :
    ∃ text, s.render? = some text ∧ read? text = some s := by
  obtain ⟨nodes, roots, written, read, plain⟩ := recovers 121 exact
  obtain ⟨d, is_read, value⟩ := Json.read_compact plain
  refine ⟨_, by rw [render?, written]; rfl, ?_⟩
  have picked : d.pick ["nodes", "roots"] = some (.object [("nodes", nodes), ("roots", roots)]) :=
    Document.pick_of_value? value (by simp)
  rw [read?, is_read, Option.bind_some, ofDocument?, picked, Option.bind_some, read]

def sampler : Snapshot where
  nodes :=
    [⟨.classNode "java.lang.Class" none none [⟨"count", .long (-9223372036854775808), none⟩],
        some 0, some 18446744073709551615⟩,
      ⟨.loader ⟨0⟩ [⟨"naïve \"名\"", .char 0xD800, some ⟨0⟩⟩, ⟨"", .null, none⟩], none, none⟩,
      ⟨.classNode "日本\t\x7f\x01\\/😀" (some ⟨0⟩) (some ⟨1⟩) [], none, some 64⟩,
      ⟨.plain ⟨2⟩ [⟨"at", .ref ⟨18446744073709551615⟩, some ⟨2⟩⟩, ⟨"flag", .bool true, none⟩,
        ⟨"kind", .unclassified "?", none⟩], some 4096, none⟩,
      ⟨.array ⟨2⟩ [.byte (-128), .short 32767, .int (-2147483648), .text "\x00\n", .char 65535],
        none, none⟩]
  roots := [⟨0⟩, ⟨3⟩]

theorem read_rendered_sampler :
    sampler.IsExact ∧ ∃ text, sampler.render? = some text ∧ read? text = some sampler := by
  have exact : sampler.IsExact := by
    simp [sampler, IsExact, Node.IsExact, Shape.fields, Shape.elements, Cell.IsExact]
  exact ⟨exact, read_rendered exact⟩

end Snapshot

end HeapLens
