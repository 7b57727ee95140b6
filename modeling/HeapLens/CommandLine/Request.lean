import HeapLens.Text.Numeral

set_option autoImplicit false

namespace HeapLens.CommandLine

inductive OutputForm where
  | text
  | json
  deriving DecidableEq, Repr

/-- The colours that a terminal is told to use. Anything but a terminal gets no colours. -/
inductive Theme where
  | auto
  | light
  | dark
  | plain
  deriving DecidableEq, Repr

inductive Command where
  | summary (snapshot : String)
  | call (snapshot function : String) (arguments : List String)
  | follow (snapshot node path : String)
  | elements (snapshot node : String) (limit : Option UInt64)
  | functions
  deriving DecidableEq, Repr

structure Options where
  config : Option String
  form : Option OutputForm
  theme : Option Theme
  limit : Option UInt64
  deriving DecidableEq, Repr

inductive Request where
  | run (options : Options) (command : Command)
  | version
  | help
  deriving DecidableEq, Repr

inductive Verb where
  | info
  | call
  | path
  | elements
  | functions
  deriving DecidableEq, Repr

namespace Verb

def ofWord? : String → Option Verb
  | "info" => some info
  | "call" => some call
  | "path" => some path
  | "elements" => some elements
  | "functions" => some functions
  | _ => none

def operands : Verb → Nat
  | info => 1
  | call => 2
  | path => 3
  | elements => 2
  | functions => 0

def takesMore (v : Verb) : Bool := v = call

def hasLimit (v : Verb) : Bool := v = elements

end Verb

namespace Options

def empty : Options := ⟨none, none, none, none⟩

def form? : String → Option OutputForm
  | "text" => some .text
  | "json" => some .json
  | _ => none

def theme? : String → Option Theme
  | "auto" => some .auto
  | "light" => some .light
  | "dark" => some .dark
  | "plain" => some .plain
  | _ => none

def setOnce {α : Type} (value : Option α) : Option α → Option (Option α)
  | none => value.map some
  | some _ => none

def set? (o : Options) (name word : String) : Option Options :=
  match name with
  | "config" =>
    (setOnce (if word.isEmpty then none else some word) o.config).map ({ o with config := · })
  | "format" => (setOnce (form? word) o.form).map ({ o with form := · })
  | "theme" => (setOnce (theme? word) o.theme).map ({ o with theme := · })
  | "limit" =>
    (setOnce (Text.readUInt64 10 word.toList).toOption o.limit).map ({ o with limit := · })
  | _ => none

def override (first second : Options) : Options where
  config := second.config <|> first.config
  form := second.form <|> first.form
  theme := second.theme <|> first.theme
  limit := second.limit <|> first.limit

end Options

def endOfOptions : String := "--"

def optionNames (verb : Option Verb) : List String :=
  ["config", "format", "theme"] ++ if verb.any Verb.hasLimit then ["limit"] else []

def letters (verb : Option Verb) : List Char :=
  if verb.isNone then ['h', 'V'] else ['h']

def flags (verb : Option Verb) : List (String × Request) :=
  ("help", .help) :: if verb.isNone then [("version", .version)] else []

inductive Word where
  | plain
  | stop
  | long (name : String) (value : Option String)
  | short (first : Char) (rest : List Char)
  deriving DecidableEq, Repr

def Word.ofString (word : String) : Word :=
  match word.toList with
  | ['-', '-'] => .stop
  | '-' :: '-' :: rest =>
    let name := rest.takeWhile (· ≠ '=')
    let value := match rest.dropWhile (· ≠ '=') with
      | [] => none
      | _ :: value => some (String.ofList value)
    .long (String.ofList name) value
  | '-' :: first :: rest => .short first rest
  | _ => .plain

/-- Whether a word is an option in this place; where operands may begin with a hyphen, an unknown
one is none. -/
def isOption (verb : Option Verb) (hyphens : Bool) : Word → Bool
  | .plain => false
  | .stop => true
  | .long name _ =>
    !hyphens || name ∈ optionNames verb || name ∈ (flags verb).map Prod.fst
  | .short first rest => !hyphens || (first :: rest).all (· ∈ letters verb)

inductive Effect where
  | set (name value : String)
  | setNext (name : String)
  | request (r : Request)
  | misuse
  deriving DecidableEq, Repr

def effectOf (verb : Option Verb) : Word → Effect
  | .long name value =>
    if name ∈ optionNames verb then
      match value with
      | some value => .set name value
      | none => .setNext name
    else
      match (flags verb).lookup name, value with
      | some request, none => .request request
      | _, _ => .misuse
  | .short first _ =>
    if first = 'h' then .request .help
    else if first = 'V' && verb.isNone then .request .version
    else .misuse
  | _ => .misuse

def command? (verb : Verb) (o : Options) (operands : List String) : Option Command :=
  match verb, operands with
  | .info, [snapshot] => some (.summary snapshot)
  | .call, snapshot :: function :: arguments => some (.call snapshot function arguments)
  | .path, [snapshot, node, path] => some (.follow snapshot node path)
  | .elements, [snapshot, node] => some (.elements snapshot node o.limit)
  | .functions, [] => some .functions
  | _, _ => none

def addOperand? (verb : Verb) (operands : List String) (word : String) : Option (List String) :=
  if operands.isEmpty && word.isEmpty then none
  else if operands.length < verb.operands || verb.takesMore then some (operands ++ [word])
  else none

/-- Whether an operand that begins with a hyphen may stand behind the operands met so far. -/
def allowsHyphen (verb : Verb) (operands : List String) : Bool :=
  verb.takesMore && verb.operands ≤ operands.length

def onlyOperands (verb : Verb) (operands : List String) : Bool :=
  verb.takesMore && verb.operands < operands.length

def readOperands (verb : Verb) (o : Options) (operands : List String) :
    List String → Option Request
  | [] => (command? verb o operands).map (.run o)
  | word :: rest =>
    let shape := Word.ofString word
    if onlyOperands verb operands || !isOption (some verb) (allowsHyphen verb operands) shape then
      match addOperand? verb operands word with
      | some operands => readOperands verb o operands rest
      | none => none
    else if shape = .stop then
      (rest.foldlM (addOperand? verb) operands).bind fun operands =>
        (command? verb o operands).map (.run o)
    else
      match effectOf (some verb) shape with
      | .set name value =>
        match o.set? name value with
        | some o => readOperands verb o operands rest
        | none => none
      | .setNext name =>
        match rest with
        | [] => none
        | value :: rest =>
          if isOption (some verb) (allowsHyphen verb operands) (.ofString value) then none
          else
            match o.set? name value with
            | some o => readOperands verb o operands rest
            | none => none
      | .request request => some request
      | .misuse => none

def Request.under (outer : Options) : Request → Request
  | .run inner command => .run (outer.override inner) command
  | request => request

def readWords (o : Options) : List String → Option Request
  | [] => none
  | word :: rest =>
    match Word.ofString word with
    | .plain =>
      match Verb.ofWord? word with
      | none => none
      | some verb => (readOperands verb .empty [] rest).map (·.under o)
    | shape =>
      match effectOf none shape with
      | .set name value =>
        match o.set? name value with
        | some o => readWords o rest
        | none => none
      | .setNext name =>
        match rest with
        | [] => none
        | value :: rest =>
          if isOption none false (.ofString value) then none
          else
            match o.set? name value with
            | some o => readWords o rest
            | none => none
      | .request request => some request
      | .misuse => none

def read? (words : List String) : Option Request := readWords .empty words

end HeapLens.CommandLine
