import HeapLens.Query.Path
import HeapLens.Text.Blank

set_option autoImplicit false

namespace HeapLens.Path

/-- The pieces between the dots of a text. -/
def pieces : List Char → List (List Char)
  | [] => [[]]
  | c :: rest =>
    if c = '.' then [] :: pieces rest
    else
      match pieces rest with
      | [] => [[c]]
      | piece :: more => (c :: piece) :: more

def isQuote (c : Char) : Bool := c = '\'' || c = '"'

def endsName (c : Char) : Bool := c = '.' || c = '['

def isNameChar (c : Char) : Bool := !(c = ']' || isQuote c || Text.isBlank c)

def readBracket : List Char → Except PathFlaw (List (List Char) × List Char)
  | [] => .error .notQuoted
  | quote :: body =>
    if !isQuote quote then .error .notQuoted
    else
      let names := pieces (body.takeWhile (· ≠ quote))
      match body.dropWhile (· ≠ quote) with
      | [] => .error .unterminated
      | _ :: rest =>
        if names.any List.isEmpty then .error .emptyStep
        else
          match rest with
          | ']' :: rest => .ok (names, rest)
          | _ => .error .unclosed

def readName (text : List Char) : Except PathFlaw (List (List Char) × List Char) :=
  let name := text.takeWhile (!endsName ·)
  if name.isEmpty then .error .emptyStep
  else if name.all isNameChar then .ok ([name], text.dropWhile (!endsName ·))
  else .error .badCharacter

def readItem : List Char → Except PathFlaw (List (List Char) × List Char)
  | '[' :: inner => readBracket inner
  | text => readName text

def readSeam : List Char → Except PathFlaw (List Char)
  | [] => .ok []
  | ['.'] => .error .endsWithDot
  | '.' :: '[' :: _ => .error .bracketAfterDot
  | '.' :: rest => .ok rest
  | '[' :: rest => .ok ('[' :: rest)
  | _ => .error .trailing

/-- Reads items up to the end, at most `count` of them. -/
def readItems : Nat → List Char → Except PathFlaw (List (List Char))
  | _, [] => .ok []
  | 0, _ => .error .trailing
  | count + 1, text => do
    let (names, rest) ← readItem text
    let rest ← readSeam rest
    let more ← readItems count rest
    .ok (names ++ more)

def dropRoot (text : List Char) : Except PathFlaw (List Char) :=
  match text with
  | 't' :: 'h' :: 'i' :: 's' :: after =>
    match after with
    | [] => .ok []
    | '[' :: _ => .ok after
    | ['.'] => .error .endsWithDot
    | '.' :: rest => .ok rest
    | _ => .ok text
  | _ => .ok text

def readTrimmed (text : List Char) : Except PathFlaw (List (List Char)) :=
  if text.isEmpty then .error .empty
  else do
    let rest ← dropRoot text
    readItems rest.length rest

/-- Reads a path; an error carries the text as it was given. -/
def read (text : String) : Except QueryError Path :=
  match readTrimmed (Text.trim text.toList) with
  | .error flaw => .error (.malformedPath text flaw)
  | .ok names => .ok ⟨names.map fun name => .ofName (String.ofList name)⟩

end HeapLens.Path
