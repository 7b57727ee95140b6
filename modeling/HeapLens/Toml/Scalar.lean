import HeapLens.Number.Reader
import HeapLens.Toml.Basic

set_option autoImplicit false

namespace HeapLens.Toml

abbrev Parsed (α : Type) := Option (α × List Char)

def isBlank (c : Char) : Bool := c = ' ' || c = '\t'

def isPrintable (c : Char) : Bool := c = '\t' || (0x20 ≤ c.toNat && c.toNat ≠ 0x7F)

def skipBlanks (text : List Char) : List Char := text.dropWhile isBlank

def charOf? (code : Nat) : Option Char :=
  if h : code.isValidChar then some (Char.ofNatAux code h) else none

def hexValue? (digits : List Char) : Option Nat :=
  digits.foldlM (fun n c => (Text.digitValue? 16 c).map (n * 16 + ·)) 0

def escapedCode? (digits : List Char) : Option Char := (hexValue? digits).bind charOf?

def escapedLetter? (c : Char) : Option Char :=
  match c with
  | 'b' => some '\x08'
  | 't' => some '\t'
  | 'n' => some '\n'
  | 'f' => some '\x0c'
  | 'r' => some '\r'
  | '"' => some '"'
  | '\\' => some '\\'
  | _ => none

def gathered (chars : List Char) : String := String.ofList chars.reverse

def readQuoted (found : List Char) : List Char → Parsed String
  | '"' :: rest => some (gathered found, rest)
  | '\\' :: 'u' :: a :: b :: c :: d :: rest =>
    (escapedCode? [a, b, c, d]).bind fun char => readQuoted (char :: found) rest
  | '\\' :: 'U' :: a :: b :: c :: d :: e :: f :: g :: h :: rest =>
    (escapedCode? [a, b, c, d, e, f, g, h]).bind fun char => readQuoted (char :: found) rest
  | '\\' :: c :: rest =>
    (escapedLetter? c).bind fun char => readQuoted (char :: found) rest
  | c :: rest => if isPrintable c && c ≠ '\\' then readQuoted (c :: found) rest else none
  | [] => none

/-- Where the reader of a text over several lines stands. -/
inductive LineMode where
  | content
  | lineEnd
  | nextLines
  deriving DecidableEq, Repr

def readLines (mode : LineMode) (found : List Char) : List Char → Parsed String
  | [] => none
  | c :: rest =>
    if mode = .lineEnd then
      if isBlank c then readLines .lineEnd found rest
      else if c = '\n' then readLines .nextLines found rest
      else
        match c, rest with
        | '\r', '\n' :: rest => readLines .nextLines found rest
        | _, _ => none
    else if mode = .nextLines && (isBlank c || c = '\n') then readLines .nextLines found rest
    else
      match c, rest with
      | '\r', '\n' :: rest =>
        if mode = .nextLines then readLines .nextLines found rest
        else readLines .content ('\n' :: found) rest
      | '"', '"' :: '"' :: '"' :: '"' :: rest => some (gathered ('"' :: '"' :: found), rest)
      | '"', '"' :: '"' :: '"' :: rest => some (gathered ('"' :: found), rest)
      | '"', '"' :: '"' :: rest => some (gathered found, rest)
      | '\\', 'u' :: p :: q :: r :: s :: rest =>
        (escapedCode? [p, q, r, s]).bind fun char => readLines .content (char :: found) rest
      | '\\', 'U' :: p :: q :: r :: s :: t :: u :: v :: w :: rest =>
        (escapedCode? [p, q, r, s, t, u, v, w]).bind fun char =>
          readLines .content (char :: found) rest
      | '\\', '\n' :: rest => readLines .nextLines found rest
      | '\\', '\r' :: '\n' :: rest => readLines .nextLines found rest
      | '\\', d :: rest =>
        if isBlank d then readLines .lineEnd found rest
        else (escapedLetter? d).bind fun char => readLines .content (char :: found) rest
      | '\n', rest => readLines .content ('\n' :: found) rest
      | c, rest => if isPrintable c && c ≠ '\\' then readLines .content (c :: found) rest else none

def readLiteral (found : List Char) : List Char → Parsed String
  | '\'' :: rest => some (gathered found, rest)
  | c :: rest => if isPrintable c then readLiteral (c :: found) rest else none
  | [] => none

def readLiteralLines (found : List Char) : List Char → Parsed String
  | '\'' :: '\'' :: '\'' :: '\'' :: '\'' :: rest => some (gathered ('\'' :: '\'' :: found), rest)
  | '\'' :: '\'' :: '\'' :: '\'' :: rest => some (gathered ('\'' :: found), rest)
  | '\'' :: '\'' :: '\'' :: rest => some (gathered found, rest)
  | '\r' :: '\n' :: rest => readLiteralLines ('\n' :: found) rest
  | c :: rest =>
    if isPrintable c || c = '\n' then readLiteralLines (c :: found) rest else none
  | [] => none

def skipNewline : List Char → List Char
  | '\n' :: rest => rest
  | '\r' :: '\n' :: rest => rest
  | chars => chars

/-- The digits of a run where single underscores stand between digits. -/
def ungrouped? (isDigit : Char → Bool) : List Char → Option (List Char)
  | [] => none
  | [c] => if isDigit c then some [c] else none
  | c :: '_' :: rest => if isDigit c then (ungrouped? isDigit rest).map (c :: ·) else none
  | c :: rest => if isDigit c then (ungrouped? isDigit rest).map (c :: ·) else none

def isWordChar (c : Char) : Bool :=
  c.isAlphanum || c = '_' || c = '+' || c = '-' || c = '.'

def signOf : List Char → List Char × List Char
  | '+' :: rest => (['+'], rest)
  | '-' :: rest => (['-'], rest)
  | rest => ([], rest)

def wholeDigits? (word : List Char) : Option (List Char) :=
  (ungrouped? Char.isDigit word).filter fun digits => digits.head? ≠ some '0' || digits.length = 1

def markedInteger? (base : Nat) (word : List Char) : Option Toml :=
  ((ungrouped? (fun c => (Text.digitValue? base c).isSome) word).bind fun digits =>
    (Text.readDigits base (Text.int64Limit - 1) 0 digits).toOption).map fun n =>
      .integer (Int64.ofNat n)

def integer? : List Char → Option Toml
  | '0' :: 'x' :: digits => markedInteger? 16 digits
  | '0' :: 'o' :: digits => markedInteger? 8 digits
  | '0' :: 'b' :: digits => markedInteger? 2 digits
  | word =>
    let (sign, rest) := signOf word
    (wholeDigits? rest).bind fun digits => (Text.readInt64? (sign ++ digits)).map .integer

def realTail? (word : List Char) : Option (List Char) := do
  let beforeMark := word.takeWhile fun c => c ≠ 'e' && c ≠ 'E'
  let fraction ← match beforeMark with
    | [] => some []
    | '.' :: digits => (ungrouped? Char.isDigit digits).map ('.' :: ·)
    | _ => none
  let exponent ← match word.dropWhile fun c => c ≠ 'e' && c ≠ 'E' with
    | [] => some []
    | mark :: rest =>
      let (sign, digits) := signOf rest
      (ungrouped? Char.isDigit digits).map fun digits => mark :: sign ++ digits
  some (fraction ++ exponent)

def real? (word : List Char) : Option Toml :=
  let (sign, rest) := signOf word
  if rest = ['i', 'n', 'f'] || rest = ['n', 'a', 'n'] then
    (Number.Binary64.read? word).map .real
  else
    let isPart := fun c : Char => c.isDigit || c = '_'
    let tail := rest.dropWhile isPart
    if tail.isEmpty then none
    else do
      let whole ← wholeDigits? (rest.takeWhile isPart)
      let tail ← realTail? tail
      let x ← Number.Binary64.read? (sign ++ whole ++ tail)
      if x.value = .infinite false then none else some (.real x)

def word? (word : List Char) : Option Toml :=
  if word = "true".toList then some (.boolean true)
  else if word = "false".toList then some (.boolean false)
  else real? word <|> integer? word

def readField (count low high : Nat) (text : List Char) : Parsed Nat :=
  let digits := text.take count
  if digits.length = count && digits.all Char.isDigit then
    let n := Number.digitsValue 0 digits
    if low ≤ n && n ≤ high then some (n, text.drop count) else none
  else none

def readChar (c : Char) : List Char → Parsed Unit
  | d :: rest => if d = c then some ((), rest) else none
  | [] => none

def daysIn (year month : Nat) : Nat :=
  if month = 2 then
    if year % 4 = 0 && (year % 100 ≠ 0 || year % 400 = 0) then 29 else 28
  else if month = 4 || month = 6 || month = 9 || month = 11 then 30
  else 31

def skipDate? (text : List Char) : Option (List Char) := do
  let (year, rest) ← readField 4 0 9999 text
  let (_, rest) ← readChar '-' rest
  let (month, rest) ← readField 2 1 12 rest
  let (_, rest) ← readChar '-' rest
  let (_, rest) ← readField 2 1 (daysIn year month) rest
  some rest

def skipTime? (text : List Char) : Option (List Char) := do
  let (_, rest) ← readField 2 0 23 text
  let (_, rest) ← readChar ':' rest
  let (_, rest) ← readField 2 0 59 rest
  let (_, rest) ← readChar ':' rest
  let (_, rest) ← readField 2 0 60 rest
  match rest with
  | '.' :: fraction =>
    if (fraction.takeWhile Char.isDigit).isEmpty then some rest
    else some (fraction.dropWhile Char.isDigit)
  | _ => some rest

def skipOffset? : List Char → Option (List Char)
  | c :: rest =>
    if c = 'Z' || c = 'z' then some rest
    else if c = '+' || c = '-' then do
      let (_, rest) ← readField 2 0 23 rest
      let (_, rest) ← readChar ':' rest
      let (_, rest) ← readField 2 0 59 rest
      some rest
    else some (c :: rest)
  | [] => some []

def beginsTime (text : List Char) : Bool :=
  (readField 2 0 99 text).any fun (_, rest) => rest.head? = some ':'

def beginsDate (text : List Char) : Bool :=
  (readField 4 0 9999 text).any fun (_, rest) => rest.head? = some '-'

def skipMoment? (text : List Char) : Option (List Char) :=
  if beginsDate text then do
    let rest ← skipDate? text
    match rest with
    | mark :: time =>
      if (mark = 'T' || mark = 't' || mark = ' ') && beginsTime time then
        (skipTime? time).bind skipOffset?
      else some rest
    | [] => some []
  else skipTime? text

def readMoment (text : List Char) : Parsed Toml :=
  (skipMoment? text).map fun rest =>
    (.moment (String.ofList (text.take (text.length - rest.length))), rest)

def readScalar (chars : List Char) : Parsed Toml :=
  match chars with
  | '"' :: '"' :: '"' :: rest =>
    (readLines .content [] (skipNewline rest)).map fun (s, rest) => (.text s, rest)
  | '"' :: rest => (readQuoted [] rest).map fun (s, rest) => (.text s, rest)
  | '\'' :: '\'' :: '\'' :: rest =>
    (readLiteralLines [] (skipNewline rest)).map fun (s, rest) => (.text s, rest)
  | '\'' :: rest => (readLiteral [] rest).map fun (s, rest) => (.text s, rest)
  | _ =>
    if beginsDate chars || beginsTime chars then readMoment chars
    else
      (word? (chars.takeWhile isWordChar)).map fun value => (value, chars.dropWhile isWordChar)

end HeapLens.Toml
