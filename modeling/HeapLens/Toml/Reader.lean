import HeapLens.Toml.Scalar

set_option autoImplicit false

namespace HeapLens.Toml

def levelLimit : Nat := 80

def skipGaps (inComment : Bool) : List Char → Option (List Char)
  | [] => some []
  | '\n' :: rest => skipGaps false rest
  | '\r' :: '\n' :: rest => skipGaps false rest
  | c :: rest =>
    if inComment then
      if isPrintable c then skipGaps true rest else none
    else if isBlank c then skipGaps false rest
    else if c = '#' then skipGaps true rest
    else some (c :: rest)

def skipLineEnd (chars : List Char) : Option (List Char) :=
  match skipBlanks chars with
  | [] => some []
  | '\n' :: rest => some rest
  | '\r' :: '\n' :: rest => some rest
  | '#' :: comment =>
    match comment.dropWhile isPrintable with
    | [] => some []
    | '\n' :: rest => some rest
    | '\r' :: '\n' :: rest => some rest
    | _ => none
  | _ => none

def isKeyChar (c : Char) : Bool := c.isAlphanum || c = '-' || c = '_'

def readKeyPart (chars : List Char) : Parsed String :=
  match chars with
  | '"' :: rest => readQuoted [] rest
  | '\'' :: rest => readLiteral [] rest
  | _ =>
    let part := chars.takeWhile isKeyChar
    if part.isEmpty then none else some (String.ofList part, chars.dropWhile isKeyChar)

def readKey : Nat → List Char → Option ((List String × String) × List Char)
  | 0, _ => none
  | 1, _ => none
  | levels + 1, chars => do
    let (part, rest) ← readKeyPart (skipBlanks chars)
    match skipBlanks rest with
    | '.' :: rest =>
      let ((path, key), rest) ← readKey levels rest
      some ((part :: path, key), rest)
    | rest => some (([], part), rest)

mutual

def readValue : Nat → Nat → List Char → Parsed Toml
  | 0, _, _ => none
  | fuel + 1, levels, chars =>
    match chars with
    | '[' :: rest =>
      if levels ≤ 1 then none
      else (readItems fuel (levels - 1) rest).map fun (items, rest) => (.array items, rest)
    | '\x7b' :: rest =>
      if levels ≤ 1 then none
      else
        match skipBlanks rest with
        | '\x7d' :: rest => some (.table .inlined [], rest)
        | rest =>
          (readEntries fuel (levels - 1) ⟨.inlined, []⟩ rest).map fun (t, rest) =>
            (.table .inlined t.entries, rest)
    | _ => readScalar chars

def readItems : Nat → Nat → List Char → Option (List Toml × List Char)
  | 0, _, _ => none
  | fuel + 1, levels, chars => do
    match ← skipGaps false chars with
    | ']' :: rest => some ([], rest)
    | chars =>
      let (item, rest) ← readValue fuel levels chars
      match ← skipGaps false rest with
      | ',' :: rest =>
        let (items, rest) ← readItems fuel levels rest
        some (item :: items, rest)
      | ']' :: rest => some ([item], rest)
      | _ => none

def readEntries : Nat → Nat → Table → List Char → Option (Table × List Char)
  | 0, _, _, _ => none
  | fuel + 1, levels, t, chars => do
    let ((path, key), rest) ← readKey levelLimit chars
    let (_, rest) ← readChar '=' rest
    let (value, rest) ← readValue fuel levels (skipBlanks rest)
    let t ← t.addPath path key value
    match skipBlanks rest with
    | ',' :: rest => readEntries fuel levels t rest
    | '\x7d' :: rest => some (t, rest)
    | _ => none

end

structure Progress where
  root : Table
  header : List String
  deriving Repr

def readHeader (isElement : Bool) (chars : List Char) (p : Progress) :
    Option (Progress × List Char) := do
  let ((path, key), rest) ← readKey levelLimit chars
  let (_, rest) ← readChar ']' rest
  let rest ← if isElement then (readChar ']' rest).map Prod.snd else some rest
  let root ← p.root.change false (if isElement then Table.openElement key else Table.openTable key)
    path
  some (⟨root, path ++ [key]⟩, rest)

def readEntry (chars : List Char) (p : Progress) :
    Option (Progress × List Char) := do
  let ((path, key), rest) ← readKey levelLimit chars
  let (_, rest) ← readChar '=' rest
  let (value, rest) ← readValue (2 * rest.length + 2) levelLimit (skipBlanks rest)
  let root ← p.root.change false (Table.addPath path key value) p.header
  some ({ p with root }, rest)

def readAllLines : Nat → Progress → List Char → Option Table
  | count, p, chars => do
    match ← skipGaps false chars with
    | [] => some p.root
    | chars =>
      match count with
      | 0 => none
      | count + 1 =>
        let (p, rest) ← match chars with
          | '[' :: '[' :: rest => readHeader true rest p
          | '[' :: rest => readHeader false rest p
          | _ => readEntry chars p
        readAllLines count p (← skipLineEnd rest)

/-- Reads a document; a byte order mark at its beginning is passed over. -/
def read? (text : String) : Option (List (String × Toml)) :=
  let chars := match text.toList with
    | '\uFEFF' :: rest => rest
    | chars => chars
  (readAllLines chars.length ⟨⟨.header, []⟩, []⟩ chars).map Table.entries

end HeapLens.Toml
