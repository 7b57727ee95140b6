import HeapLens.Heap.Cell

set_option autoImplicit false

namespace HeapLens

inductive Corruption where
  | notClass
  | endlessHierarchy
  | noElements
  | noEntries
  | badSize
  | missingSize
  | missingSlot
  | cyclicBuckets
  | missingMap
  | reported (text : String)
  deriving DecidableEq, Repr

def Corruption.message : Corruption → String
  | .notClass => "expected a class node"
  | .endlessHierarchy => "superclass chain does not terminate"
  | .noElements => "extractor does not enumerate elements"
  | .noEntries => "extractor does not enumerate entries"
  | .badSize => "collection size is not a non-negative integer"
  | .missingSize => "collection size field missing"
  | .missingSlot => "array slot out of range"
  | .cyclicBuckets => "cyclic bucket chain"
  | .missingMap => "set has no backing map"
  | .reported text => text

namespace Corruption

def wordings : List (Corruption × String) :=
  [(.notClass, "expected a class node"),
    (.endlessHierarchy, "superclass chain does not terminate"),
    (.noElements, "extractor does not enumerate elements"),
    (.noEntries, "extractor does not enumerate entries"),
    (.badSize, "collection size is not a non-negative integer"),
    (.missingSize, "collection size field missing"),
    (.missingSlot, "array slot out of range"),
    (.cyclicBuckets, "cyclic bucket chain"),
    (.missingMap, "set has no backing map")]

theorem message_mem_wordings (c : Corruption) :
    (c, c.message) ∈ wordings ∨ c = .reported c.message := by
  cases c with
  | reported text => exact .inr rfl
  | _ => exact .inl (by decide)

theorem eq_of_message_eq {c d : Corruption} (same : c.message = d.message) :
    c = d ∨ c = .reported c.message ∨ d = .reported d.message := by
  have apart : ∀ p ∈ wordings, ∀ q ∈ wordings, p.2 = q.2 → p.1 = q.1 := by decide
  rcases c.message_mem_wordings with known | foreign
  · rcases d.message_mem_wordings with known' | foreign
    · exact .inl (apart _ known _ known' same)
    · exact .inr (.inr foreign)
  · exact .inr (.inl foreign)

end Corruption

inductive Fault where
  | missingNode (node : NodeId)
  | corrupt (cause : Corruption)
  | closed
  deriving DecidableEq, Repr

def Fault.message : Fault → String
  | .missingNode node => "node " ++ node.label ++ " not found"
  | .corrupt cause => "corruption: " ++ cause.message
  | .closed => "store closed"

theorem Fault.message_cases (f : Fault) :
    (∃ node, f = .missingNode node ∧
        f.message = "node #" ++ String.ofList (Text.decimal node.index) ++ " not found") ∨
      (∃ cause, f = .corrupt cause ∧ f.message = "corruption: " ++ cause.message) ∨
      f = .closed ∧ f.message = "store closed" := by
  cases f with
  | missingNode node =>
    have subject : "node " ++ node.label = "node #" ++ _ := NodeId.append_label _ node
    refine .inl ⟨node, rfl, ?_⟩
    rw [message, subject]
  | corrupt cause => exact .inr (.inl ⟨cause, rfl, rfl⟩)
  | closed => exact .inr (.inr ⟨rfl, rfl⟩)

end HeapLens
