import HeapLens.Collection.Strategy
import HeapLens.Store.ClassChain

set_option autoImplicit false

namespace HeapLens

/-- Strategies by the names of classes; the first entry of a name counts. -/
structure Catalog where
  entries : List (String × Strategy)

namespace Catalog

def empty : Catalog := ⟨[]⟩

def register (c : Catalog) (className : String) (strategy : Strategy) : Catalog :=
  ⟨(className, strategy) :: c.entries.filter (·.1 ≠ className)⟩

def lookup (c : Catalog) (className : String) : Option Strategy :=
  c.entries.lookup className

def size (c : Catalog) : Nat := c.entries.length

def builtin : Catalog :=
  empty
    |>.register "java.util.ArrayList" (.countedArray "size" "elementData")
    |>.register "java.util.Vector" (.countedArray "elementCount" "elementData")
    |>.register "java.util.HashMap" (.hashTable "size" "table")
    |>.register "java.util.LinkedHashMap" (.hashTable "size" "table")
    |>.register "java.util.Hashtable" (.hashTable "count" "table")
    |>.register "java.util.concurrent.ConcurrentHashMap" (.hashTable "baseCount" "table")
    |>.register "java.util.HashSet" (.keySet "map" "size" "table")
    |>.register "java.util.LinkedHashSet" (.keySet "map" "size" "table")

def findIn (c : Catalog) (s : Store) : List (Except Fault NodeId) → Except Fault (Option Strategy)
  | [] => .ok none
  | .error fault :: _ => .error fault
  | .ok classId :: rest =>
    match s.className classId with
    | .error fault => .error fault
    | .ok name =>
      match c.lookup name with
      | some strategy => .ok (some strategy)
      | none => findIn c s rest

/-- The strategy for a node. An empty catalog asks the store nothing. -/
def strategyOf (c : Catalog) (s : Store) (node : NodeId) : Except Fault (Option Strategy) :=
  if c.entries.isEmpty then .ok none
  else
    match s.classOf node with
    | .error fault => .error fault
    | .ok classId => c.findIn s (s.classChain classId)

end Catalog

end HeapLens
