import HeapLens.CommandLine.Argument
import HeapLens.Proofs.Heap.Answers
import HeapLens.Proofs.Query.StringText
import HeapLens.Proofs.Text.Numeral

set_option autoImplicit false

namespace HeapLens

variable {session : Session} {place : Nat} {s : Snapshot} {h : Heap} {x y : Handle} {n : NodeId}
  {word text : String} {before after : List Char} {c : Char} {address : UInt64} {l : Library}

namespace Text

/-- What stands behind the last occurrence of a character; all of a text without one. -/
def afterLast (c : Char) (text : String) : String :=
  String.ofList (text.toList.reverse.takeWhile (· ≠ c)).reverse

theorem afterLast_eq (split : text.toList = before ++ c :: after) (last : c ∉ after) :
    afterLast c text = String.ofList after := by
  have behind : ∀ d ∈ after.reverse, decide (d ≠ c) = true := by
    intro d mem
    apply decide_eq_true
    intro same
    exact last (same ▸ List.mem_reverse.mp mem)
  rw [afterLast, split, List.reverse_append, List.reverse_cons, List.append_assoc,
    List.takeWhile_append_of_pos behind, List.singleton_append, List.takeWhile_cons_of_neg (by simp),
    List.append_nil, List.reverse_reverse]

theorem toList_address (word : UInt64) :
    (Text.address word).toList = '0' :: 'x' :: hexadecimal word.toNat := by
  simp [Text.address]

theorem sign_not_mem_address (word : UInt64) : '@' ∉ (Text.address word).toList := by
  rw [toList_address]
  intro mem
  have mem : '@' ∈ hexadecimal word.toNat := by simpa using mem
  obtain ⟨value, is_digit⟩ := (isNumeral_toDigits (by decide) word.toNat).exists_isDigit mem
  have found : digitValue? 16 '@' = some value :=
    (digitValue?_eq_some_iff (by decide)).mpr is_digit
  cases found

end Text

namespace CommandLine

theorem readNode_number (has : h.Has n) :
    readNode h.store ("#" ++ String.ofList (Text.decimal n.index)) = .ok n := by
  obtain ⟨r, held⟩ := Heap.exists_holds has
  have kind_eq : h.store.kind n = .ok r.kind := Heap.answer_of_holds held _
  have read : Text.readUInt64 10 (Text.decimal n.index) = .ok n.word :=
    Text.readUInt64_toDigits (by decide) (by decide) n.word
  have written : ("#" ++ String.ofList (Text.decimal n.index)).toList =
      '#' :: Text.decimal n.index := by simp
  rw [readNode, written]
  change nodeNumbered h.store (Text.decimal n.index) = _
  rw [nodeNumbered, read]
  simp only [Except.mapError, ok_bind, kind_eq]

theorem nodeAt_address (accepted : Heap.ofSnapshot s = .ok h) (has : h.Has n)
    (told : h.store.address n = .ok address) : h.store.nodeAt address = some n := by
  have exists_n := (Heap.has_iff_of_ofSnapshot accepted).mp has
  have described : s.Describes n _ := List.getElem?_eq_getElem exists_n
  have same := (Heap.toldBy accepted).addresses n _ described
  rw [told, Except.ok.injEq] at same
  exact (Heap.nodeAt_iff accepted address n).mpr ⟨_, described, same.symm⟩

theorem readNode_address (accepted : Heap.ofSnapshot s = .ok h) (has : h.Has n)
    (told : h.store.address n = .ok address) :
    readNode h.store (Text.address address) = .ok n := by
  have read : Text.readUInt64 16 (Text.hexadecimal address.toNat) = .ok address :=
    Text.readUInt64_toDigits (by decide) (by decide) address
  rw [readNode, Text.toList_address]
  change nodeAddressed h.store (Text.address address) (Text.hexadecimal address.toNat) = _
  rw [nodeAddressed, read]
  simp only [Except.mapError, ok_bind, nodeAt_address accepted has told]

theorem has_of_nodeNumbered (accepted : Heap.ofSnapshot s = .ok h) {digits : List Char}
    (read : nodeNumbered h.store digits = .ok n) : h.Has n := by
  obtain ⟨number, -, read⟩ := bind_eq_ok_iff.mp read
  obtain ⟨kind, known, read⟩ := bind_eq_ok_iff.mp read
  obtain rfl := Except.ok.inj read
  rw [Heap.has_iff_of_ofSnapshot accepted]
  by_contra missing
  have refused := (Heap.toldBy accepted).nothing_else ⟨number⟩ missing
  rw [refused] at known
  cases known

theorem has_of_nodeAddressed (accepted : Heap.ofSnapshot s = .ok h) {digits : List Char}
    (read : nodeAddressed h.store word digits = .ok n) : h.Has n := by
  obtain ⟨address, -, read⟩ := bind_eq_ok_iff.mp read
  cases found : h.store.nodeAt address with
  | none => simp [found] at read
  | some node =>
    rw [found] at read
    obtain rfl := Except.ok.inj read
    obtain ⟨d, described, -⟩ := (Heap.nodeAt_iff accepted address node).mp found
    exact (Heap.has_iff_of_ofSnapshot accepted).mpr (List.getElem?_eq_some_iff.mp described).1

theorem has_of_readNode (accepted : Heap.ofSnapshot s = .ok h)
    (read : readNode h.store word = .ok n) : h.Has n := by
  unfold readNode at read
  split at read
  · exact has_of_nodeNumbered accepted read
  · exact has_of_nodeAddressed accepted read
  · exact has_of_nodeAddressed accepted read
  · cases read

end CommandLine

/-- What a node without a text of its own is shown by names it behind the last sign. -/
theorem Session.Opens.readNode_label (opens : session.Opens place h)
    (accepted : Heap.ofSnapshot s = .ok h) (within : x.Within place h) :
    '@' ∈ (x.label session).toList ∧
      CommandLine.readNode h.store (Text.afterLast '@' (x.label session)) = .ok x.node := by
  obtain ⟨name, address, -, told, label_eq⟩ := opens.label_eq within
  have split : (x.label session).toList = name.toList ++ '@' :: (Text.address address).toList := by
    rw [label_eq, String.toList_append, String.toList_append]
    simp
  constructor
  · simp [split]
  · rw [Text.afterLast_eq split (Text.sign_not_mem_address address), String.ofList_toList]
    exact CommandLine.readNode_address accepted within.has told

/-- Whether a node is shown by its class and its address, for want of a text of its own. -/
def Library.FallsBack (l : Library) (session : Session) (x : Handle) (text : String) : Prop :=
  text = x.label session ∧ l.invoke session "toString" [.handle x] = .ok (.text text)

/--
On the command line a node is found by its number and by its address, and by what stands behind the
last sign of the text that shows it, if that is no text of its own. Such texts are therefore
different for different nodes, whatever their classes are called. Only nodes that exist are found.
-/
theorem names_lead_back (l : Library) (accepted : Heap.ofSnapshot s = .ok h) :
    (∀ n, h.Has n →
      CommandLine.readNode h.store ("#" ++ String.ofList (Text.decimal n.index)) = .ok n ∧
        ∃ address, h.store.address n = .ok address ∧
          CommandLine.readNode h.store
            ("0x" ++ String.ofList (Text.hexadecimal address.toNat)) = .ok n) ∧
      (∀ session place, session.storeAt place = .ok h.store →
        (∀ x, x.Within place h → h.string? x.node = none → h.box? x.node = none →
          l.FallsBack session x (x.label session)) ∧
        (∀ x text, x.Within place h → l.FallsBack session x text →
          '@' ∈ text.toList ∧
            CommandLine.readNode h.store (Text.afterLast '@' text) = .ok x.node) ∧
        ∀ x y text, x.Within place h → y.Within place h → l.FallsBack session x text →
          l.FallsBack session y text → x = y) ∧
      ∀ word n, CommandLine.readNode h.store word = .ok n → h.Has n := by
  have sound := Heap.sound_of_ofSnapshot accepted
  refine ⟨fun n has => ⟨CommandLine.readNode_number has, ?_⟩, fun session place opened => ?_,
    fun word n => CommandLine.has_of_readNode accepted⟩
  · obtain ⟨address, told, -⟩ := (Heap.address_succeeds has).exists_eq
    exact ⟨address, told, CommandLine.readNode_address accepted has told⟩
  · have opens : session.Opens place h := ⟨sound, opened⟩
    have leads_back (x : Handle) (text : String) (within : x.Within place h)
        (falls : l.FallsBack session x text) : '@' ∈ text.toList ∧
          CommandLine.readNode h.store (Text.afterLast '@' text) = .ok x.node := by
      rw [falls.1]
      exact opens.readNode_label accepted within
    refine ⟨fun x within no_string no_box => ⟨rfl, ?_⟩, leads_back, ?_⟩
    · rw [l.invoke_display]
      exact opens.display_eq_label within no_string no_box
    · intro x y text within within' falls falls'
      have node_eq : x.node = y.node := Except.ok.inj
        ((leads_back x text within falls).2.symm.trans (leads_back y text within' falls').2)
      cases x
      cases y
      exact congrArg₂ Handle.mk (within.store_eq.trans within'.store_eq.symm) node_eq

def decoy : Snapshot where
  nodes :=
    [⟨.classNode "Decoy@0x200" none none [], some 0x100, none⟩,
      ⟨.plain ⟨0⟩ [], some 0xABCDEF, none⟩,
      ⟨.plain ⟨0⟩ [], some 0x200, none⟩]
  roots := [⟨1⟩]

def decoyHeap : Heap := Heap.assemble (Heap.recordsOfSnapshot decoy) decoy.roots

def decoySession : Session := Session.empty.opening decoyHeap.store

theorem names_decoy :
    Heap.ofSnapshot decoy = .ok decoyHeap ∧ decoyHeap.Has ⟨1⟩ ∧
      CommandLine.readNode decoyHeap.store "#1" = .ok ⟨1⟩ ∧
      CommandLine.readNode decoyHeap.store "0xabcdef" = .ok ⟨1⟩ ∧
      knotLibrary.FallsBack decoySession ⟨0, ⟨1⟩⟩ "Decoy@0x200@0xabcdef" ∧
      CommandLine.readNode decoyHeap.store (Text.afterLast '@' "Decoy@0x200@0xabcdef") =
        .ok ⟨1⟩ := by
  have accepted : Heap.ofSnapshot decoy = .ok decoyHeap :=
    Heap.ofSnapshot_of_defect? (by decide +kernel)
  have has : decoyHeap.Has ⟨1⟩ := (Heap.has_iff_of_ofSnapshot accepted).mpr (by decide +kernel)
  obtain ⟨identified, shown, -⟩ := names_lead_back knotLibrary accepted
  obtain ⟨falls_back, leads_back, -⟩ := shown decoySession 0 rfl
  obtain ⟨by_number, address, told, by_address⟩ := identified ⟨1⟩ has
  obtain rfl : 0xABCDEF = address := Except.ok.inj told
  have within : Handle.Within ⟨0, ⟨1⟩⟩ 0 decoyHeap := ⟨rfl, has⟩
  have falls := falls_back ⟨0, ⟨1⟩⟩ within (by decide +kernel) (by decide +kernel)
  have label_eq : Handle.label decoySession ⟨0, ⟨1⟩⟩ = "Decoy@0x200@0xabcdef" := by decide +kernel
  rw [label_eq] at falls
  exact ⟨accepted, has, by_number, by_address, falls, (leads_back _ _ within falls).2⟩

end HeapLens
