import HeapLens.Number.Layout
import HeapLens.Text.Utf16

set_option autoImplicit false

namespace HeapLens

structure NodeId where
  word : UInt64
  deriving DecidableEq, Repr, Inhabited

namespace NodeId

def index (id : NodeId) : Nat := id.word.toNat

def ofIndex (i : Nat) : NodeId := ⟨UInt64.ofNat i⟩

def label (id : NodeId) : String := "#" ++ String.ofList (Text.decimal id.index)

theorem index_ofIndex {i : Nat} (h : i < UInt64.size) : (ofIndex i).index = i := by
  simp only [index, ofIndex, UInt64.toNat_ofNat']
  exact Nat.mod_eq_of_lt h

@[simp] theorem ofIndex_index (id : NodeId) : ofIndex id.index = id := by
  simp [index, ofIndex]

theorem append_label (before : String) (id : NodeId) :
    before ++ id.label = before ++ "#" ++ String.ofList (Text.decimal id.index) :=
  String.append_assoc.symm

theorem index_lt (id : NodeId) : id.index < UInt64.size := id.word.toNat_lt

theorem ext_index {a b : NodeId} (h : a.index = b.index) : a = b := by
  rw [← ofIndex_index a, ← ofIndex_index b, h]

theorem length_le_of_nodup {nodes : List NodeId} {count : Nat} (nodup : nodes.Nodup)
    (low : ∀ node ∈ nodes, node.index < count) : nodes.length ≤ count := by
  have indices : (nodes.map index).Nodup :=
    List.Pairwise.map _ (fun _ _ apart same => apart (ext_index same)) nodup
  have inside : nodes.map index ⊆ List.range count := by
    intro i mem
    obtain ⟨node, there, rfl⟩ := List.mem_map.mp mem
    exact List.mem_range.mpr (low node there)
  have few := indices.length_le_of_subset inside
  rwa [List.length_map, List.length_range] at few

end NodeId

inductive Cell where
  | null
  | bool (b : Bool)
  | byte (v : Int8)
  | char (unit : UInt16)
  | short (v : Int16)
  | int (v : Int32)
  | long (v : Int64)
  | float (x : Number.Binary32)
  | double (x : Number.Binary64)
  | text (s : String)
  | ref (node : NodeId)
  | wide (v : Int)
  | unclassified (typeName : String)
  deriving DecidableEq, Repr

namespace Cell

def ref? : Cell → Option NodeId
  | .ref node => some node
  | _ => none

def int64? : Cell → Option Int64
  | .byte v => some v.toInt64
  | .char unit => some unit.toUInt64.toInt64
  | .short v => some v.toInt64
  | .int v => some v.toInt64
  | .long v => some v
  | _ => none

def typeName : Cell → String
  | .null => "null"
  | .bool _ => "boolean"
  | .byte _ => "byte"
  | .char _ => "char"
  | .short _ => "short"
  | .int _ => "int"
  | .long _ => "long"
  | .float _ => "float"
  | .double _ => "double"
  | .text _ => "text"
  | .ref _ => "reference"
  | .wide _ => "int128"
  | .unclassified typeName => typeName

/-- A code unit as a character, or as an escape of four digits if it is half of a pair. -/
def unitText (unit : UInt16) : String :=
  if Text.Utf16.isHigh unit || Text.Utf16.isLow unit then
    "\\u" ++ String.ofList (Text.padLeft 4 '0' (Text.hexadecimal unit.toNat))
  else String.ofList [Char.ofNat unit.toNat]

def intText (v : Int) : String :=
  String.ofList ((if v < 0 then ['-'] else []) ++ Text.decimal v.natAbs)

def boolText (b : Bool) : String := if b then "true" else "false"

def render : Cell → String
  | .null => "null"
  | .bool b => boolText b
  | .byte v => intText v.toInt
  | .char unit => unitText unit
  | .short v => intText v.toInt
  | .int v => intText v.toInt
  | .long v => intText v.toInt
  | .float x => x.render .plain
  | .double x => x.render .plain
  | .text s => s
  | .ref node => node.label
  | .wide v => intText v
  | .unclassified typeName => "<" ++ typeName ++ ">"

end Cell

end HeapLens
