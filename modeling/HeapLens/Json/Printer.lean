import HeapLens.Json.Basic

set_option autoImplicit false

namespace HeapLens.Json

def escape (c : Char) : List Char :=
  match c with
  | '"' => ['\\', '"']
  | '\\' => ['\\', '\\']
  | '\x08' => ['\\', 'b']
  | '\x0c' => ['\\', 'f']
  | '\n' => ['\\', 'n']
  | '\r' => ['\\', 'r']
  | '\t' => ['\\', 't']
  | _ =>
    if c.toNat < 0x20 then '\\' :: 'u' :: Text.padLeft 4 '0' (Text.hexadecimal c.toNat) else [c]

def quote (s : String) : List Char :=
  '"' :: s.toList.flatMap escape ++ ['"']

def Numeric.render : Numeric → List Char
  | .natural n => Text.decimal n.toNat
  | .negative n => '-' :: Text.decimal n.toInt.natAbs
  | .double x => (x.render .jsonDouble).toList
  | .single x => (x.render .jsonSingle).toList

mutual

def compactChars : Json → List Char
  | .null => "null".toList
  | .bool true => "true".toList
  | .bool false => "false".toList
  | .number n => n.render
  | .text s => quote s
  | .array [] => ['[', ']']
  | .array (item :: rest) => '[' :: compactChars item ++ compactItems rest
  | .object [] => ['\x7b', '\x7d']
  | .object ((name, item) :: rest) =>
    '\x7b' :: quote name ++ ':' :: compactChars item ++ compactMembers rest

def compactItems : List Json → List Char
  | [] => [']']
  | item :: rest => ',' :: compactChars item ++ compactItems rest

def compactMembers : List (String × Json) → List Char
  | [] => ['\x7d']
  | (name, item) :: rest => ',' :: quote name ++ ':' :: compactChars item ++ compactMembers rest

end

def compact (j : Json) : String := String.ofList (compactChars j)

def line (level : Nat) : List Char := '\n' :: List.replicate (2 * level) ' '

mutual

def prettyChars (level : Nat) : Json → List Char
  | .null => "null".toList
  | .bool true => "true".toList
  | .bool false => "false".toList
  | .number n => n.render
  | .text s => quote s
  | .array [] => ['[', ']']
  | .array (item :: rest) =>
    '[' :: line (level + 1) ++ prettyChars (level + 1) item ++ prettyItems level rest
  | .object [] => ['\x7b', '\x7d']
  | .object ((name, item) :: rest) =>
    '\x7b' :: line (level + 1) ++ quote name ++ ':' :: ' ' :: prettyChars (level + 1) item ++
      prettyMembers level rest

def prettyItems (level : Nat) : List Json → List Char
  | [] => line level ++ [']']
  | item :: rest =>
    ',' :: line (level + 1) ++ prettyChars (level + 1) item ++ prettyItems level rest

def prettyMembers (level : Nat) : List (String × Json) → List Char
  | [] => line level ++ ['\x7d']
  | (name, item) :: rest =>
    ',' :: line (level + 1) ++ quote name ++ ':' :: ' ' :: prettyChars (level + 1) item ++
      prettyMembers level rest

end

def pretty (j : Json) : String := String.ofList (prettyChars 0 j)

end HeapLens.Json
