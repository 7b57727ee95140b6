import HeapLens.Store.Fault

set_option autoImplicit false

namespace HeapLens

inductive Task where
  | computeSize
  | computeRetained
  | resolveClassName
  | resolveClass
  | resolveLoader
  | resolveSuperclass
  | navigate
  | readObjectFields
  | walkHierarchy
  | readStatics
  | openSequence
  | openMap
  | findStrategy
  | obtainSize
  | countSlots
  | enumerateElements
  | readElement
  | enumerateEntries
  | readEntry
  | render
  | resolveType
  | readString
  | readLength
  | readSlot
  | calculateSize
  | calculateRetained
  | readAddress
  | obtainDominator
  deriving DecidableEq, Repr

def Task.phrase : Task → String
  | .computeSize => "compute shallow size"
  | .computeRetained => "compute retained size"
  | .resolveClassName => "resolve class name"
  | .resolveClass => "resolve class"
  | .resolveLoader => "resolve class loader"
  | .resolveSuperclass => "resolve superclass"
  | .navigate => "navigate fields"
  | .readObjectFields => "read instance fields"
  | .walkHierarchy => "walk superclass chain"
  | .readStatics => "read static fields"
  | .openSequence => "open collection"
  | .openMap => "open map"
  | .findStrategy => "find collection extractor"
  | .obtainSize => "obtain collection size"
  | .countSlots => "count live slots"
  | .enumerateElements => "enumerate elements"
  | .readElement => "read element"
  | .enumerateEntries => "enumerate entries"
  | .readEntry => "read entry"
  | .render => "render node"
  | .resolveType => "resolve type"
  | .readString => "represent as string"
  | .readLength => "read array length"
  | .readSlot => "read array element"
  | .calculateSize => "calculate shallow size"
  | .calculateRetained => "calculate retained size"
  | .readAddress => "read object address"
  | .obtainDominator => "obtain immediate dominator"

inductive PathFlaw where
  | empty
  | endsWithDot
  | notQuoted
  | unterminated
  | emptyStep
  | unclosed
  | badCharacter
  | bracketAfterDot
  | trailing
  deriving DecidableEq, Repr

def PathFlaw.message : PathFlaw → String
  | .empty => "empty path"
  | .endsWithDot => "path ends with '.'"
  | .notQuoted => "expected quoted name after '['"
  | .unterminated => "unterminated quote"
  | .emptyStep => "empty segment"
  | .unclosed => "expected ']'"
  | .badCharacter => "unexpected character in name"
  | .bracketAfterDot => "unexpected '[' after '.'"
  | .trailing => "trailing characters"

inductive ValueType where
  | any
  | integer
  | text
  | handle
  deriving DecidableEq, Repr

def ValueType.name : ValueType → String
  | .any => "any"
  | .integer => "integer"
  | .text => "text"
  | .handle => "handle"

inductive QueryError where
  | fieldNotFound (field className : String)
  | notNavigable (step found : String)
  | malformedPath (path : String) (flaw : PathFlaw)
  | unsupportedType (typeName : String)
  | store (task : Task) (node : NodeId) (fault : Fault)
  | invalidInteger (text : String)
  | unknownFunction (name : String)
  | arity (function : String) (expected got : Nat)
  | argumentType (function : String) (position : Nat) (expected : ValueType)
  deriving DecidableEq, Repr

namespace QueryError

def message : QueryError → String
  | .fieldNotFound field className => "field '" ++ field ++ "' not found on " ++ className
  | .notNavigable step found =>
    "cannot navigate into '" ++ step ++ "': current value is " ++ found
  | .malformedPath path flaw => "malformed field path '" ++ path ++ "': " ++ flaw.message
  | .unsupportedType typeName => "unsupported value type: " ++ typeName
  | .store task node fault =>
    "cannot " ++ task.phrase ++ " for " ++ node.label ++ ": " ++ fault.message
  | .invalidInteger text => "invalid integer literal '" ++ text ++ "'"
  | .unknownFunction name => "unknown function '" ++ name ++ "'"
  | .arity function expected got =>
    function ++ " expects " ++ Cell.intText expected ++ " argument(s), got " ++ Cell.intText got
  | .argumentType function position expected =>
    function ++ " argument " ++ Cell.intText position ++ " must be " ++ expected.name

def code : QueryError → String
  | .fieldNotFound .. => "FieldNotFound"
  | .notNavigable .. => "InvalidPathSegment"
  | .malformedPath .. => "MalformedPath"
  | .unsupportedType .. => "UnsupportedType"
  | .store .. => "StoreComputationError"
  | .invalidInteger .. => "InvalidLiteral"
  | .unknownFunction .. => "UnknownFunction"
  | .arity .. => "Arity"
  | .argumentType .. => "ArgumentType"

end QueryError

def Task.on {α : Type} (task : Task) (node : NodeId) (answer : Except Fault α) :
    Except QueryError α :=
  answer.mapError (.store task node)

end HeapLens
