import HeapLens.CommandLine.Argument
import HeapLens.CommandLine.Report
import HeapLens.CommandLine.Request
import HeapLens.Config
import HeapLens.Query.Library
import HeapLens.Query.Path.Reader

set_option autoImplicit false

namespace HeapLens.CommandLine

def programName : String := "heapql"

def programVersion : String := "0.1.0"

inductive Problem where
  | config (path : String) (e : ConfigError)
  | load (path : String) (e : LoadError)
  | format (e : EpochFormatError)
  | node (e : NodeError)
  | query (e : QueryError)
  | notCollection (label : String)
  deriving DecidableEq, Repr

def Problem.message : Problem → String
  | .config path .unreadable => "failed to read config " ++ path
  | .config path .malformed => "failed to parse config " ++ path
  | .load path .unreadable => "failed to read snapshot " ++ path
  | .load path .malformed => "failed to parse snapshot " ++ path
  | .load _ (.defective defect) => defect.message
  | .format e => e.message
  | .node e => e.message
  | .query e => e.message
  | .notCollection label => label ++ " is not a collection"

abbrev Outcome := Except Problem (Session × Report)

def onlyPlace : Nat := 0

def sessionOf (store : Store) : Session := Session.empty.opening store

def openHeap (files : String → FileContent) (path : String) : Except Problem Heap :=
  (Heap.load (files path)).mapError (.load path)

def libraryOf (config : Config) : Except Problem Library := do
  let epochs ← (EpochStyle.ofFormat config.format).mapError .format
  .ok { catalog := .builtin, epochs }

def call (config : Config) (store : Store) (function : String) (arguments : List String) :
    Except Problem Report := do
  let library ← libraryOf config
  let values ← (arguments.mapM (readValue onlyPlace store)).mapError .node
  let result ← (library.invoke (sessionOf store) function values).mapError .query
  .ok (.call function result)

def readHandle (store : Store) (word : String) : Except Problem Handle :=
  ((readNode store word).mapError .node).map (⟨onlyPlace, ·⟩)

def follow (store : Store) (node path : String) : Except Problem Report := do
  let h ← readHandle store node
  let path ← (Path.read path).mapError .query
  let value ← (path.resolve (sessionOf store) h).mapError .query
  .ok (.follow h path value)

/-- The items of a walk, `limit` of them at most, if none of them is an error. -/
def collected {α : Type} (limit : Option UInt64) (walk : Walk (Except QueryError α)) :
    Except QueryError (List α) :=
  (match limit with
    | some limit => walk.take limit.toNat
    | none => walk.toList).mapM id

def contents (session : Session) (h : Handle) (limit : Option UInt64) :
    Except QueryError (Option Contents) := do
  match ← Catalog.builtin.sequence? session h with
  | some view => .ok (some (.sequence (← collected limit (← view.items))))
  | none =>
    match ← Catalog.builtin.map? session h with
    | some view => .ok (some (.map (← collected limit (← view.items))))
    | none => .ok none

def elements (store : Store) (node : String) (limit : Option UInt64) : Except Problem Report := do
  let session := sessionOf store
  let h ← readHandle store node
  let size ← (Catalog.builtin.sizeOf session h).mapError .query
  match ← (contents session h limit).mapError .query with
  | some contents => .ok (.elements h size contents)
  | none => .error (.notCollection (h.label session))

def Command.snapshot? : Command → Option String
  | .summary snapshot => some snapshot
  | .call snapshot _ _ => some snapshot
  | .follow snapshot _ _ => some snapshot
  | .elements snapshot _ _ => some snapshot
  | .functions => none

def Command.run (files : String → FileContent) (config : Config) : Command → Outcome
  | .summary snapshot => do
    let heap ← openHeap files snapshot
    .ok (sessionOf heap.store, .summary snapshot heap)
  | .call snapshot function arguments => do
    let store := (← openHeap files snapshot).store
    .ok (sessionOf store, ← CommandLine.call config store function arguments)
  | .follow snapshot node path => do
    let store := (← openHeap files snapshot).store
    .ok (sessionOf store, ← CommandLine.follow store node path)
  | .elements snapshot node limit => do
    let store := (← openHeap files snapshot).store
    .ok (sessionOf store, ← CommandLine.elements store node limit)
  | .functions => .ok (.empty, .functions)

structure Answer where
  code : UInt8
  output : String
  diagnostics : String
  deriving DecidableEq, Repr

namespace Answer

def done (output : String) : Answer := ⟨0, output, ""⟩

def failed (p : Problem) : Answer := ⟨1, "", "error: " ++ p.message ++ "\n"⟩

def usage : String :=
  "Usage: " ++ programName ++ " [OPTIONS] <COMMAND>\n\n" ++
  "Commands:\n" ++
  "  info <SNAPSHOT>                    count what is in a snapshot\n" ++
  "  call <SNAPSHOT> <FUNCTION> [ARG]   call a function\n" ++
  "  path <SNAPSHOT> <NODE> <PATH>      follow a path from a node\n" ++
  "  elements <SNAPSHOT> <NODE>         list a collection, at most --limit of it\n" ++
  "  functions                          list the functions\n\n" ++
  "Options: --config <FILE>, --format text|json, --theme auto|light|dark|plain\n"

def configOf (files : String → FileContent) (path : Option String) : Except Problem Config :=
  match path with
  | none => .ok .standard
  | some path => (Config.load (files path)).mapError (.config path)

def ofCommand (files : String → FileContent) (defaultConfig : Option String) (o : Options)
    (command : Command) : Answer :=
  let outcome : Outcome := do
    command.run files (← configOf files (o.config <|> defaultConfig))
  match outcome with
  | .error p => failed p
  | .ok (session, report) =>
    match o.form.getD .text with
    | .text => done (report.text session)
    | .json => done (report.json session)

/-- The files that the answer to a command line depends on. -/
def filesFor (defaultConfig : Option String) (words : List String) : List String :=
  match read? words with
  | some (.run o command) => (o.config <|> defaultConfig).toList ++ command.snapshot?.toList
  | _ => []

def ofWords (files : String → FileContent) (defaultConfig : Option String)
    (words : List String) : Answer :=
  match read? words with
  | none => ⟨2, "", usage⟩
  | some .help => done usage
  | some .version => done (programName ++ " " ++ programVersion ++ "\n")
  | some (.run o command) => ofCommand files defaultConfig o command

end Answer

end HeapLens.CommandLine
