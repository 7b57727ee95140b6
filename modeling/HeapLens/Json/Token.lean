import HeapLens.Json.Numeral
import HeapLens.Text.Utf16

set_option autoImplicit false

namespace HeapLens.Json

open Text (digitValue?)

inductive Token where
  | openArray
  | closeArray
  | openObject
  | closeObject
  | comma
  | colon
  | null
  | bool (b : Bool)
  | number (n : Option Numeric)
  | text (s : Option String)
  deriving DecidableEq, Repr

namespace Token

structure Quoted where
  chars : List Char
  high : Option UInt16
  isBroken : Bool
  deriving DecidableEq, Repr

namespace Quoted

def empty : Quoted := ⟨[], none, false⟩

def push (q : Quoted) (c : Char) : Quoted :=
  ⟨c :: q.chars, none, q.isBroken || q.high.isSome⟩

def pushUnit (q : Quoted) (unit : UInt16) : Quoted :=
  match q.high with
  | some high =>
    if Text.Utf16.isLow unit then ⟨Text.Utf16.pair high unit :: q.chars, none, q.isBroken⟩
    else ⟨q.chars, none, true⟩
  | none =>
    if Text.Utf16.isHigh unit then ⟨q.chars, some unit, q.isBroken⟩
    else if Text.Utf16.isLow unit then ⟨q.chars, none, true⟩
    else q.push (Char.ofNat unit.toNat)

def close (q : Quoted) : Token :=
  if q.isBroken || q.high.isSome then .text none else .text (some (String.ofList q.chars.reverse))

end Quoted

inductive Mode where
  | between
  | word (chars : List Char)
  | quoted (q : Quoted)
  | escape (q : Quoted)
  | unit (q : Quoted) (missing : Nat) (value : Nat)
  deriving DecidableEq, Repr

def isWordChar (c : Char) : Bool :=
  c.isAlphanum || c == '-' || c == '+' || c == '.'

def isSpace (c : Char) : Bool :=
  c == ' ' || c == '\n' || c == '\t' || c == '\r'

def ofWord? (word : List Char) : Option Token :=
  if word = "null".toList then some .null
  else if word = "true".toList then some (.bool true)
  else if word = "false".toList then some (.bool false)
  else (Numeral.ofText? word).map fun n => .number n.value?

def ofMark? (c : Char) : Option Token :=
  match c with
  | '[' => some .openArray
  | ']' => some .closeArray
  | '\x7b' => some .openObject
  | '\x7d' => some .closeObject
  | ',' => some .comma
  | ':' => some .colon
  | _ => none

def escaped? (c : Char) : Option Char :=
  match c with
  | '"' => some '"'
  | '\\' => some '\\'
  | '/' => some '/'
  | 'b' => some '\x08'
  | 'f' => some '\x0c'
  | 'n' => some '\n'
  | 'r' => some '\r'
  | 't' => some '\t'
  | _ => none

structure Scanner where
  mode : Mode
  tokens : List Token
  deriving DecidableEq, Repr

namespace Scanner

def start : Scanner := ⟨.between, []⟩

def enter (tokens : List Token) (c : Char) : Option Scanner :=
  if isSpace c then some ⟨.between, tokens⟩
  else if c == '"' then some ⟨.quoted .empty, tokens⟩
  else if isWordChar c then some ⟨.word [c], tokens⟩
  else (ofMark? c).map fun token => ⟨.between, token :: tokens⟩

def step (s : Scanner) (c : Char) : Option Scanner :=
  match s.mode with
  | .between => enter s.tokens c
  | .word chars =>
    if isWordChar c then some ⟨.word (c :: chars), s.tokens⟩
    else
      match ofWord? chars.reverse with
      | none => none
      | some token => enter (token :: s.tokens) c
  | .quoted q =>
    if c == '"' then some ⟨.between, q.close :: s.tokens⟩
    else if c == '\\' then some ⟨.escape q, s.tokens⟩
    else if c.toNat < 0x20 then none
    else some ⟨.quoted (q.push c), s.tokens⟩
  | .escape q =>
    if c == 'u' then some ⟨.unit q 3 0, s.tokens⟩
    else (escaped? c).map fun c => ⟨.quoted (q.push c), s.tokens⟩
  | .unit q missing value =>
    match digitValue? 16 c with
    | none => none
    | some digit =>
      let value := value * 16 + digit
      match missing with
      | 0 => some ⟨.quoted (q.pushUnit (UInt16.ofNat value)), s.tokens⟩
      | missing + 1 => some ⟨.unit q missing value, s.tokens⟩

def finish (s : Scanner) : Option (List Token) :=
  match s.mode with
  | .between => some s.tokens.reverse
  | .word chars => (ofWord? chars.reverse).map fun token => (token :: s.tokens).reverse
  | _ => none

end Scanner

def scan (chars : List Char) : Option (List Token) :=
  (chars.foldlM Scanner.step Scanner.start).bind Scanner.finish

end Token

end HeapLens.Json
