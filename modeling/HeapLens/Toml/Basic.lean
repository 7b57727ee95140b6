import HeapLens.Number.Binary

set_option autoImplicit false

namespace HeapLens

inductive Toml.Origin where
  | header
  | passed
  | dotted
  | inlined
  deriving DecidableEq, Repr

inductive Toml where
  | text (s : String)
  | integer (n : Int64)
  | real (x : Number.Binary64)
  | boolean (b : Bool)
  | moment (written : String)
  | array (items : List Toml)
  | table (origin : Toml.Origin) (entries : List (String × Toml))
  | tables (elements : List (List (String × Toml)))
  deriving Repr

namespace Toml

structure Table where
  origin : Origin
  entries : List (String × Toml)
  deriving Repr

namespace Table

/-- Puts a value in the place of the one that a key has, or at the end. -/
def put (entries : List (String × Toml)) (key : String) (value : Toml) : List (String × Toml) :=
  match entries with
  | [] => [(key, value)]
  | (k, v) :: rest => if k = key then (key, value) :: rest else (k, v) :: put rest key value

/--
Changes the table at the end of a path. Missing tables are made on the way; `dotted` tells whether
the path is a dotted key, which never passes through a table with a header. A path through tables
with one header leads to the last of them.
-/
def change (dotted : Bool) (f : Table → Option Table) : List String → Table → Option Table
  | [], t => f t
  | key :: rest, t =>
    match t.entries.lookup key with
    | none =>
      (change dotted f rest ⟨if dotted then .dotted else .passed, []⟩).map fun inner =>
        { t with entries := t.entries ++ [(key, .table inner.origin inner.entries)] }
    | some (.table origin entries) =>
      if origin = .inlined || (dotted && origin = .header) then none
      else
        (change dotted f rest ⟨origin, entries⟩).map fun inner =>
          { t with entries := put t.entries key (.table inner.origin inner.entries) }
    | some (.tables elements) =>
      match elements.getLast? with
      | none => none
      | some last =>
        (change dotted f rest ⟨.header, last⟩).map fun inner =>
          { t with entries := put t.entries key (.tables (elements.dropLast ++ [inner.entries])) }
    | some _ => none

def add (isDotted : Bool) (key : String) (value : Toml) (t : Table) : Option Table :=
  if isDotted = decide (t.origin = .dotted) && (t.entries.lookup key).isNone then
    some { t with entries := t.entries ++ [(key, value)] }
  else none

def addPath (path : List String) (key : String) (value : Toml) (t : Table) : Option Table :=
  t.change true (add (!path.isEmpty) key value) path

def openTable (key : String) (t : Table) : Option Table :=
  match t.entries.lookup key with
  | none => some { t with entries := t.entries ++ [(key, .table .header [])] }
  | some (.table .passed entries) =>
    some { t with entries := put t.entries key (.table .header entries) }
  | some _ => none

def openElement (key : String) (t : Table) : Option Table :=
  match t.entries.lookup key with
  | none => some { t with entries := t.entries ++ [(key, .tables [[]])] }
  | some (.tables elements) =>
    some { t with entries := put t.entries key (.tables (elements ++ [[]])) }
  | some _ => none

end Table

end Toml

end HeapLens
