import HeapLens.Proofs.Heap.Answers
import HeapLens.Proofs.Query.Calls
import HeapLens.Proofs.Query.Lookup
import HeapLens.Proofs.Query.PathText
import HeapLens.Proofs.Text.Numeral

set_option autoImplicit false

namespace HeapLens

variable {session : Session} {place : Nat} {s : Snapshot} {h : Heap} {x : Handle} {l : Library}
  {text : String} {a : Attribute} {v : QueryValue} {p : Path}

theorem toInt_sizeInteger (bytes : UInt64) :
    (sizeInteger bytes).toInt = min (bytes.toNat : Int) (2 ^ 63 - 1) := by
  have limit : Text.int64Limit = 2 ^ 63 := rfl
  rw [sizeInteger, limit]
  by_cases small : bytes.toNat < 2 ^ 63
  · rw [if_pos small, Text.toInt_toInt64 small]
    omega
  · have greatest : Int64.maxValue.toInt = 2 ^ 63 - 1 := by decide
    rw [if_neg small, greatest]
    omega

theorem Path.toLower_of_special {c : Char}
    (special : c ∈ ['.', '[', ']', '\'', '"'] ∨ Text.isBlank c = true) : c.toLower = c := by
  have marks : ['.', '[', ']', '\'', '"'].all fun c => ¬(65 ≤ c.toNat ∧ c.toNat ≤ 90) := by decide
  have no_capital : ¬(65 ≤ c.toNat ∧ c.toNat ≤ 90) := by
    rcases special with mark | blank
    · exact of_decide_eq_true (List.all_eq_true.mp marks c mark)
    · simp [Text.isBlank, Text.blankRanges] at blank
      omega
  rcases Text.toLower_cases c with same | ⟨least, greatest, -⟩
  · exact same
  · exact absurd ⟨least, greatest⟩ no_capital

namespace Attribute

theorem isName (same : Text.sameName a.name text = true) : Path.IsName text.toList := by
  have filled : ∀ a ∈ all, Text.folded a.name ≠ [] := by decide +kernel
  have plain : ∀ a ∈ all, (Text.folded a.name).all fun c =>
      c ∉ ['.', '[', ']', '\'', '"'] ∧ Text.isBlank c = false := by decide +kernel
  have written := Text.sameName_iff.mp same
  constructor
  · intro empty
    apply filled a a.mem_all
    rw [written, Text.folded, empty, List.map_nil]
  · intro c mem
    by_contra special
    have lowered : c.toLower ∈ Text.folded a.name := written ▸ List.mem_map_of_mem mem
    rw [Path.toLower_of_special (by grind)] at lowered
    exact special (of_decide_eq_true (List.all_eq_true.mp (plain a a.mem_all) c lowered))

theorem read_eq (same : Text.sameName a.name text = true) :
    Path.read text = .ok ⟨[.ofName text]⟩ := by
  have named := isName same
  have signed := ofName_eq same
  have trimmed : Text.trim text.toList = text.toList := by
    refine (Text.trims_iff.mp ⟨[], [], by simp, by simp, ?_, ?_⟩).symm
    · intro c first
      exact (named.chars c (List.mem_of_mem_head? first)).2
    · intro c last
      exact (named.chars c (List.mem_of_mem_getLast? last)).2
  have rootless : ¬Path.HasRoot text.toList := by
    intro ⟨after, split, _⟩
    rw [Step.ofName, split] at signed
    cases signed
  rw [Path.read_eq_ok_iff, trimmed]
  refine ⟨[text.toList], ?_, Path.forall₂_denotes_iff.mpr (by simp)⟩
  have items : Path.Items (text.toList ++ []) ([text.toList] ++ []) := .mk (.name named) .done
  rw [List.append_nil, List.append_nil] at items
  exact .bare rootless items

end Attribute

namespace Path

/-- Whether a text is a path that leads from a node to a value. -/
def LeadsTo (session : Session) (x : Handle) (text : String) (v : QueryValue) : Prop :=
  ∃ p, read text = .ok p ∧ p.resolve session x = .ok v

theorem resolve_step (session : Session) (x : Handle) (step : Step) :
    resolve session ⟨[step]⟩ x = x.follow session step := by
  change (x.follow session step >>= fun v => followAll session [] v) = _
  cases x.follow session step <;> rfl

theorem leadsTo_of_attribute (opens : session.Opens place h) (within : x.Within place h)
    (applies : a.isClassOnly = true → h.HasClass x.node) (value : x.attribute session a = .ok v)
    (same : Text.sameName a.name text = true) : LeadsTo session x text v := by
  refine ⟨_, a.read_eq same, ?_⟩
  rw [resolve_step, opens.follow_eq_attribute within ⟨same, applies⟩, value]

theorem eq_single_of_read (read_eq : read text = .ok p) (single : p.steps.map Step.name = [text]) :
    p = .single text := by
  obtain ⟨names, -, denoted⟩ := read_eq_ok_iff.mp read_eq
  have by_name : p.steps = (p.steps.map Step.name).map Step.ofName := by
    rw [forall₂_denotes_iff.mp denoted]
    simp [Function.comp_def]
  rw [single] at by_name
  cases p
  exact congrArg Path.mk by_name

end Path

inductive Heap.Tells (h : Heap) (x : Handle) : Attribute → QueryValue → Prop
  | size {bytes : UInt64} : h.store.size x.node = .ok bytes →
    h.Tells x .size (.integer (sizeInteger bytes))
  | retainedSize {bytes : UInt64} : h.store.retainedSize x.node = .ok bytes →
    h.Tells x .retainedSize (.integer (sizeInteger bytes))
  | className {classId : NodeId} {name : String} : h.store.classOf x.node = .ok classId →
    h.store.className classId = .ok name → h.Tells x .className (.text name)
  | classOf {classId : NodeId} : h.store.classOf x.node = .ok classId →
    h.Tells x .classOf (.handle (x.sibling classId))
  | classLoader {loader : Option NodeId} : h.store.classLoader x.node = .ok loader →
    h.Tells x .classLoader (.ofHandle? (loader.map x.sibling))
  | superclass {superclass : Option NodeId} : h.store.superclass x.node = .ok superclass →
    h.Tells x .superclass (.ofHandle? (superclass.map x.sibling))

def Attribute.function? : Attribute → Option Function
  | .size => some .ownSize
  | .retainedSize => some .retainedSize
  | .className => some .className
  | .classOf => some .classOf
  | .classLoader => none
  | .superclass => none

theorem Heap.Tells.attribute_eq (tells : h.Tells x a v) (opens : session.Opens place h)
    (within : x.Within place h) : x.attribute session a = .ok v := by
  cases tells <;> simp only [Handle.attribute, opens.storeOf_eq within, Task.on_ok, ok_bind, *]

theorem Heap.Tells.invoke_eq {f : Function} (tells : h.Tells x a v) (asked : a.function? = some f)
    (opens : session.Opens place h) (within : x.Within place h) :
    l.invoke session f.name [.handle x] = .ok v := by
  have found : Function.find? f.name = some f :=
    Function.find?_eq_some_iff.mpr (Text.sameName_iff.mpr rfl)
  rw [Library.invoke_of_find? found]
  cases tells <;> cases asked <;>
    simp only [Library.apply, QueryValue.ownSize, QueryValue.retainedSize, QueryValue.className,
      QueryValue.classOf, QueryValue.askNode, QueryValue.handle?, opens.storeOf_eq within,
      Task.on_ok, ok_bind, Except.map, *]

/--
Whether a function gives a value for a node, and the path of an attribute leads to it, in whatever
case the name of the attribute is written.
-/
structure Library.Agrees (l : Library) (session : Session) (x : Handle)
    (attributeName functionName : String) (v : QueryValue) : Prop where
  called : l.invoke session functionName [.handle x] = .ok v
  followed : ∀ text, Text.sameName attributeName text = true → Path.LeadsTo session x text v

theorem Heap.Tells.agrees {f : Function} (tells : h.Tells x a v) (asked : a.function? = some f)
    (opens : session.Opens place h) (within : x.Within place h) :
    l.Agrees session x a.name f.name v where
  called := tells.invoke_eq asked opens within
  followed text same := by
    have general : a.isClassOnly = true → h.HasClass x.node := by
      cases tells <;> cases asked <;> nofun
    exact Path.leadsTo_of_attribute opens within general (tells.attribute_eq opens within) same

theorem Library.invoke_field (l : Library) (session : Session) (x : Handle) (name : String) :
    l.invoke session "getField" [.handle x, .text name] =
      QueryValue.field session name (.handle x) := by
  rw [invoke_of_find? (f := .field) (by decide +kernel)]
  rfl

theorem Path.leadsTo_recorded (accepted : Heap.ofSnapshot s = .ok h)
    (opens : session.Opens place h) (within : x.Within place h) {n : Node} {name : String}
    {superclass loader : Option NodeId} {statics : List Field} (described : s.Describes x.node n)
    (shape : n.shape = .classNode name superclass loader statics) :
    (Text.sameName "@super" text = true →
        LeadsTo session x text (.ofHandle? (superclass.map x.sibling))) ∧
      (Text.sameName "@classLoader" text = true →
        LeadsTo session x text (.ofHandle? (loader.map x.sibling))) := by
  have shape_eq := Heap.shape?_of_describes accepted described
  have told := (Heap.toldBy accepted).shapes x.node n described
  rw [shape] at shape_eq told
  have isClass : h.HasClass x.node := Heap.hasClass_iff.mpr ⟨_, _, _, _, shape_eq⟩
  obtain ⟨-, -, -, superclass_eq, loader_eq, -⟩ := told
  constructor
  · exact leadsTo_of_attribute (a := .superclass) opens within (fun _ => isClass)
      ((Heap.Tells.superclass superclass_eq).attribute_eq opens within)
  · exact leadsTo_of_attribute (a := .classLoader) opens within (fun _ => isClass)
      ((Heap.Tells.classLoader loader_eq).attribute_eq opens within)

/-- The function for fields takes the path that a name is, and a missing field for nothing. -/
theorem Library.invoke_field_eq_resolve (l : Library) (session : Session) (x : Handle)
    (read_eq : Path.read text = .ok p) (single : p.steps.map Step.name = [text]) :
    l.invoke session "getField" [.handle x, .text text] =
      match p.resolve session x with
      | .error (.fieldNotFound _ _) => .ok .null
      | answer => answer := by
  have named : text.isEmpty = false := by
    rw [Bool.eq_false_iff, Ne, String.isEmpty_iff]
    intro empty
    rw [empty] at read_eq
    cases read_eq
  rw [l.invoke_field, Path.eq_single_of_read read_eq single, Path.single, Path.resolve_step,
    QueryValue.field, QueryValue.handle?, named]
  rfl

/--
Sizes, the class of a node and its name are the same whether they are asked for by a function or by
the path of the attribute, sizes beyond the greatest integer being told as that. The paths of the
attributes of classes lead to what has been recorded. A function reads a field as the path does that
is its name, but for a field that does not exist, which is nothing.
-/
theorem attributes_functions_paths_agree (l : Library) (accepted : Heap.ofSnapshot s = .ok h)
    (opened : session.storeAt place = .ok h.store) (within : x.Within place h) :
    (∃ bytes n, h.store.size x.node = .ok bytes ∧
        n.toInt = min (bytes.toNat : Int) (2 ^ 63 - 1) ∧
        l.Agrees session x "@shallow" "shallowSize" (.integer n)) ∧
      (∃ bytes n, h.store.retainedSize x.node = .ok bytes ∧
        n.toInt = min (bytes.toNat : Int) (2 ^ 63 - 1) ∧
        l.Agrees session x "@retained" "retainedSize" (.integer n)) ∧
      (∃ classId name, h.store.classOf x.node = .ok classId ∧
        h.store.className classId = .ok name ∧
        l.Agrees session x "@class" "getClass" (.handle (x.sibling classId)) ∧
        l.Agrees session x "@className" "getType" (.text name)) ∧
      (∀ n name superclass loader statics, s.Describes x.node n →
        n.shape = .classNode name superclass loader statics → ∀ text,
          (Text.sameName "@super" text = true →
            Path.LeadsTo session x text (.ofHandle? (superclass.map x.sibling))) ∧
          (Text.sameName "@classLoader" text = true →
            Path.LeadsTo session x text (.ofHandle? (loader.map x.sibling)))) ∧
      ∀ text p, Path.read text = .ok p → p.steps.map Step.name = [text] →
        l.invoke session "getField" [.handle x, .text text] =
          match p.resolve session x with
          | .error (.fieldNotFound _ _) => .ok .null
          | answer => answer := by
  have sound := Heap.sound_of_ofSnapshot accepted
  have opens : session.Opens place h := ⟨sound, opened⟩
  refine ⟨?_, ?_, ?_, ?_, ?_⟩
  · obtain ⟨bytes, told, -⟩ := (Heap.size_succeeds within.has).exists_eq
    exact ⟨bytes, _, told, toInt_sizeInteger bytes,
      (Heap.Tells.size told).agrees (f := .ownSize) rfl opens within⟩
  · obtain ⟨bytes, told, -⟩ := (sound.retainedSize_succeeds within.has).exists_eq
    exact ⟨bytes, _, told, toInt_sizeInteger bytes,
      (Heap.Tells.retainedSize told).agrees (f := .retainedSize) rfl opens within⟩
  · obtain ⟨classId, told, isClass⟩ := (sound.classOf_succeeds within.has).exists_eq
    obtain ⟨name, named, -⟩ := (Heap.className_succeeds isClass).exists_eq
    exact ⟨classId, name, told, named,
      (Heap.Tells.classOf told).agrees (f := .classOf) rfl opens within,
      (Heap.Tells.className told named).agrees (f := .className) rfl opens within⟩
  · intro n name superclass loader statics described shape text
    exact Path.leadsTo_recorded accepted opens within described shape
  · intro text p read_eq single
    exact l.invoke_field_eq_resolve session x read_eq single

def guild : Snapshot where
  nodes :=
    [⟨.classNode "Union" none none [], none, none⟩,
      ⟨.loader ⟨0⟩ [], none, none⟩,
      ⟨.classNode "Guild" (some ⟨0⟩) (some ⟨1⟩) [⟨"limit", .int 7, none⟩], none,
        some 9223372036854775809⟩]
  roots := [⟨2⟩]

def guildHeap : Heap := Heap.assemble (Heap.recordsOfSnapshot guild) guild.roots

def guildSession : Session := Session.empty.opening guildHeap.store

theorem agree_guild :
    Heap.ofSnapshot guild = .ok guildHeap ∧
      guildSession.storeAt 0 = .ok guildHeap.store ∧ Handle.Within ⟨0, ⟨2⟩⟩ 0 guildHeap ∧
      knotLibrary.Agrees guildSession ⟨0, ⟨2⟩⟩ "@shallow" "shallowSize"
        (.integer 9223372036854775807) ∧
      Path.LeadsTo guildSession ⟨0, ⟨2⟩⟩ "@SUPER" (.handle ⟨0, ⟨0⟩⟩) ∧
      Path.LeadsTo guildSession ⟨0, ⟨2⟩⟩ "@ClassLoader" (.handle ⟨0, ⟨1⟩⟩) ∧
      knotLibrary.invoke guildSession "getField" [.handle ⟨0, ⟨2⟩⟩, .text "limit"] =
        .ok (.integer 7) ∧
      knotLibrary.invoke guildSession "getField" [.handle ⟨0, ⟨2⟩⟩, .text "Limit"] = .ok .null := by
  have accepted : Heap.ofSnapshot guild = .ok guildHeap :=
    Heap.ofSnapshot_of_defect? (by decide +kernel)
  have opened : guildSession.storeAt 0 = .ok guildHeap.store := rfl
  have within : Handle.Within ⟨0, ⟨2⟩⟩ 0 guildHeap :=
    ⟨rfl, (Heap.has_iff_of_ofSnapshot accepted).mpr (by decide +kernel)⟩
  obtain ⟨⟨bytes, n, told, clamped, agrees⟩, -, -, recorded, fields⟩ :=
    attributes_functions_paths_agree knotLibrary accepted opened within
  obtain rfl : 9223372036854775809 = bytes := Except.ok.inj told
  obtain rfl : n = 9223372036854775807 := Int64.toInt_inj.mp (clamped.trans (by decide))
  have leads := recorded _ _ _ _ _ rfl rfl
  refine ⟨accepted, opened, within, agrees, (leads "@SUPER").1 (by decide +kernel),
    (leads "@ClassLoader").2 (by decide +kernel), ?_, ?_⟩
  · have resolved : Path.resolve guildSession (.single "limit") ⟨0, ⟨2⟩⟩ = .ok (.integer 7) := by
      decide +kernel
    rw [fields "limit" (.single "limit") (by decide +kernel) (by decide +kernel), resolved]
  · have missing : Path.resolve guildSession (.single "Limit") ⟨0, ⟨2⟩⟩ =
        .error (.fieldNotFound "Limit" "Guild") := by decide +kernel
    rw [fields "Limit" (.single "Limit") (by decide +kernel) (by decide +kernel), missing]

end HeapLens
