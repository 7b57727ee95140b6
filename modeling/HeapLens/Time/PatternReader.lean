import HeapLens.Time.Pattern
import HeapLens.Text.Caseless

/-!
# Reading date patterns

A component is written in brackets: a name, modifiers `key:value` behind blanks, and patterns in
brackets of their own. The words `optional` and `first` make a group and a choice of such patterns;
no other component takes any. A backslash takes a bracket or a backslash literally.

The text is cut into tokens, and readers take tokens from the front. A component reads nested
patterns as long as they can be read: one that cannot is passed over as far as it was read, and the
next bracket closes the component. What then stands outside all brackets is literal text, closing
brackets included.
-/

set_option autoImplicit false

namespace HeapLens.Pattern

inductive Token where
  | opening
  | closing
  | blank (chars : List Char)
  | word (chars : List Char)
  | flaw
  deriving DecidableEq, Repr

def isBlank (c : Char) : Bool :=
  c = ' ' || c = '\t' || c = '\n' || c = '\x0c' || c = '\r'

structure Scanner where
  run : Option (Bool × List Char)
  isEscaped : Bool
  tokens : List Token
  deriving DecidableEq, Repr

namespace Scanner

def start : Scanner := ⟨none, false, []⟩

def flush (s : Scanner) : Scanner :=
  match s.run with
  | none => s
  | some (true, chars) => { s with run := none, tokens := .blank chars.reverse :: s.tokens }
  | some (false, chars) => { s with run := none, tokens := .word chars.reverse :: s.tokens }

def push (s : Scanner) (t : Token) : Scanner := { s with tokens := t :: s.tokens }

def extend (s : Scanner) (c : Char) : Scanner :=
  match s.run with
  | some (blank, chars) =>
    if blank = isBlank c then { s with run := some (blank, c :: chars) }
    else { s.flush with run := some (isBlank c, [c]) }
  | none => { s with run := some (isBlank c, [c]) }

/-- Reads the character after a backslash; taken literally it is a word of its own. -/
def escaped (s : Scanner) (c : Char) : Scanner :=
  let s := { s with isEscaped := false }
  if c = '\\' || c = '[' || c = ']' then s.push (.word [c]) else s.push .flaw

def step (s : Scanner) (c : Char) : Scanner :=
  if s.isEscaped then s.escaped c
  else if c = '\\' then { s.flush with isEscaped := true }
  else if c = '[' then s.flush.push .opening
  else if c = ']' then s.flush.push .closing
  else s.extend c

def finish (s : Scanner) : List Token :=
  let s := if s.isEscaped then s.push .flaw else s.flush
  s.tokens.reverse

end Scanner

def scan (text : List Char) : List Token :=
  (text.foldl Scanner.step Scanner.start).finish

def paddings : List (String × Padding) :=
  [("zero", .zero), ("space", .space), ("none", .nothing)]

def switches : List (String × Bool) := [("true", true), ("false", false)]

def signs : List (String × Bool) := [("automatic", false), ("mandatory", true)]

def fractions : List (String × Option Nat) :=
  [("1", some 1), ("2", some 2), ("3", some 3), ("4", some 4), ("5", some 5), ("6", some 6),
    ("7", some 7), ("8", some 8), ("9", some 9), ("1+", none)]

def padded (make : Padding → Component) (modifiers : List (String × String)) : Option Component :=
  (modifiers.foldlM
    (fun _ (key, value) => if key = "padding" then paddings.lookup value else none)
    Padding.zero).map make

def monthOf? (modifiers : List (String × String)) : Option Component :=
  (modifiers.foldlM
    (fun (padding, form) (key, value) =>
      match key with
      | "padding" => (paddings.lookup value).map (·, form)
      | "repr" =>
        ([("numerical", MonthForm.number), ("long", .name), ("short", .shortName)].lookup
          value).map (padding, ·)
      | "case_sensitive" => (switches.lookup value).map fun _ => (padding, form)
      | _ => none)
    (Padding.zero, MonthForm.number)).map fun (padding, form) => .month padding form

def yearOf? (modifiers : List (String × String)) : Option Component :=
  (modifiers.foldlM
    (fun (padding, form, ofWeek, plus) (key, value) =>
      match key with
      | "padding" => (paddings.lookup value).map (·, form, ofWeek, plus)
      | "repr" =>
        ([("full", YearForm.full), ("century", .century), ("last_two", .lastTwo)].lookup
          value).map (padding, ·, ofWeek, plus)
      | "range" =>
        (["standard", "extended"].find? (· = value)).map fun _ => (padding, form, ofWeek, plus)
      | "base" =>
        ([("calendar", false), ("iso_week", true)].lookup value).map (padding, form, ·, plus)
      | "sign" => (signs.lookup value).map (padding, form, ofWeek, ·)
      | _ => none)
    (Padding.zero, YearForm.full, false, false)).map fun (padding, form, ofWeek, plus) =>
      .year padding form ofWeek plus

def weekdayOf? (modifiers : List (String × String)) : Option Component :=
  (modifiers.foldlM
    (fun (form, fromOne) (key, value) =>
      match key with
      | "repr" =>
        ([("short", WeekdayForm.shortName), ("long", .name), ("sunday", .fromSunday),
          ("monday", .fromMonday)].lookup value).map (·, fromOne)
      | "one_indexed" => (switches.lookup value).map (form, ·)
      | "case_sensitive" => (switches.lookup value).map fun _ => (form, fromOne)
      | _ => none)
    (WeekdayForm.name, true)).map fun (form, fromOne) => .weekday form fromOne

def weekOf? (modifiers : List (String × String)) : Option Component :=
  (modifiers.foldlM
    (fun (padding, form) (key, value) =>
      match key with
      | "padding" => (paddings.lookup value).map (·, form)
      | "repr" =>
        ([("iso", WeekForm.numbered), ("sunday", .fromSunday), ("monday", .fromMonday)].lookup
          value).map (padding, ·)
      | _ => none)
    (Padding.zero, WeekForm.numbered)).map fun (padding, form) => .week padding form

def hourOf? (modifiers : List (String × String)) : Option Component :=
  (modifiers.foldlM
    (fun (padding, halfDay) (key, value) =>
      match key with
      | "padding" => (paddings.lookup value).map (·, halfDay)
      | "repr" => ([("12", true), ("24", false)].lookup value).map (padding, ·)
      | _ => none)
    (Padding.zero, false)).map fun (padding, halfDay) => .hour padding halfDay

def periodOf? (modifiers : List (String × String)) : Option Component :=
  (modifiers.foldlM
    (fun upper (key, value) =>
      match key with
      | "case" => [("lower", false), ("upper", true)].lookup value
      | "case_sensitive" => (switches.lookup value).map fun _ => upper
      | _ => none)
    true).map .period

def subsecondOf? (modifiers : List (String × String)) : Option Component :=
  (modifiers.foldlM
    (fun _ (key, value) => if key = "digits" then fractions.lookup value else none)
    (none : Option Nat)).map .subsecond

def offsetHourOf? (modifiers : List (String × String)) : Option Component :=
  (modifiers.foldlM
    (fun (padding, plus) (key, value) =>
      match key with
      | "padding" => (paddings.lookup value).map (·, plus)
      | "sign" => (signs.lookup value).map (padding, ·)
      | _ => none)
    (Padding.zero, false)).map fun (padding, plus) => .offsetHour padding plus

def timestampOf? (modifiers : List (String × String)) : Option Component :=
  (modifiers.foldlM
    (fun (precision, plus) (key, value) =>
      match key with
      | "precision" =>
        ([("second", Precision.second), ("millisecond", .millisecond),
          ("microsecond", .microsecond), ("nanosecond", .nanosecond)].lookup value).map (·, plus)
      | "sign" => (signs.lookup value).map (precision, ·)
      | _ => none)
    (Precision.second, false)).map fun (precision, plus) => .timestamp precision plus

def ignoreOf? (modifiers : List (String × String)) : Option Component :=
  (modifiers.foldlM
    (fun _ ((key, value) : String × String) =>
      if key = "count" then
        match Text.readNat 10 65535 value.toList with
        | .ok count => if count = 0 then none else some (some count)
        | .error _ => none
      else none)
    (none : Option Nat)).bind fun count => count.map fun _ => .silent

def endOf? (modifiers : List (String × String)) : Option Component :=
  (modifiers.foldlM
    (fun (_ : Unit) (key, value) =>
      if key = "trailing_input" then
        (["prohibit", "discard"].find? (· = value)).map fun _ => ()
      else none)
    ()).map fun _ => .silent

def componentOf? (name : String) (modifiers : List (String × String)) : Option Component :=
  match name with
  | "day" => padded .day modifiers
  | "month" => monthOf? modifiers
  | "year" => yearOf? modifiers
  | "weekday" => weekdayOf? modifiers
  | "week_number" => weekOf? modifiers
  | "ordinal" => padded .ordinal modifiers
  | "hour" => hourOf? modifiers
  | "minute" => padded .minute modifiers
  | "second" => padded .second modifiers
  | "period" => periodOf? modifiers
  | "subsecond" => subsecondOf? modifiers
  | "offset_hour" => offsetHourOf? modifiers
  | "offset_minute" => padded .offsetMinute modifiers
  | "offset_second" => padded .offsetSecond modifiers
  | "unix_timestamp" => timestampOf? modifiers
  | "ignore" => ignoreOf? modifiers
  | "end" => endOf? modifiers
  | _ => none

def lowered (word : List Char) : String := String.ofList (word.map Char.toLower)

/-- Whether the modifiers of a group are in order: a group is always printed. -/
def groupIsShown (modifiers : List (String × String)) : Bool :=
  (modifiers.foldlM
    (fun _ (key, value) => if key = "format" then switches.lookup value else none)
    true).getD false

def itemOf? (name : String) (modifiers : List (String × String)) (nested : List (List Item)) :
    Option Item :=
  match name, nested with
  | "optional", [items] => if groupIsShown modifiers then some (.group items) else none
  | "optional", _ => none
  | "first", alternatives => if modifiers.isEmpty then some (.choice alternatives) else none
  | name, [] => (componentOf? name modifiers).map .component
  | _, _ => none

/-- A reader takes tokens from the front. It leaves the others, also where it fails. -/
abbrev Reader (α : Type) := List Token → Option α × List Token

def skipBlank : List Token → List Token
  | .blank _ :: rest => rest
  | tokens => tokens

def readModifier? (chars : List Char) : Option (String × String) :=
  let key := chars.takeWhile (· ≠ ':')
  match chars.dropWhile (· ≠ ':') with
  | _ :: value => if key.isEmpty || value.isEmpty then none else some (lowered key, lowered value)
  | [] => none

def readModifiers : List (String × String) → Reader (List (String × String) × Bool)
  | found, .blank _ :: .word chars :: rest =>
    match readModifier? chars with
    | some modifier => readModifiers (modifier :: found) rest
    | none => (none, rest)
  | found, .blank _ :: rest => (some (found.reverse, true), rest)
  | found, rest => (some (found.reverse, false), rest)

def readWhile {α : Type} (read : Reader α) : Nat → List Token → List α × List Token
  | 0, tokens => ([], tokens)
  | count + 1, tokens =>
    match read tokens with
    | (some a, rest) =>
      let (more, rest) := readWhile read count rest
      (a :: more, rest)
    | (none, rest) => ([], rest)

def readComponent (nested : Reader (List Item)) : Reader Item := fun tokens =>
  match skipBlank tokens with
  | .word name :: rest =>
    match readModifiers [] rest with
    | (some (modifiers, isApart), rest) =>
      match readWhile nested (rest.length + 1) rest with
      | (patterns, .closing :: rest) =>
        (if isApart || patterns.isEmpty then itemOf? (lowered name) modifiers patterns else none,
          rest)
      | (_, rest) => (none, rest)
    | (none, rest) => (none, rest)
  | rest => (none, rest)

def readItem (component : Reader Item) : Token → Reader Item
  | .opening => component
  | .closing => fun rest => (some (.literal [']']), rest)
  | .blank chars => fun rest => (some (.literal chars), rest)
  | .word chars => fun rest => (some (.literal chars), rest)
  | .flaw => fun rest => (none, rest)

def readItems (component : Reader Item) : Nat → Reader (List Item)
  | _, [] => (some [], [])
  | _, .closing :: rest => (some [], .closing :: rest)
  | 0, tokens => (none, tokens)
  | count + 1, token :: rest =>
    match readItem component token rest with
    | (some item, rest) =>
      match readItems component count rest with
      | (some items, rest) => (some (item :: items), rest)
      | (none, rest) => (none, rest)
    | (none, rest) => (none, rest)

def readNested : Nat → Reader (List Item)
  | 0 => fun tokens => (none, tokens)
  | depth + 1 => fun tokens =>
    match tokens with
    | .opening :: rest =>
      match readItems (readComponent (readNested depth)) rest.length rest with
      | (some items, .closing :: rest) => (some items, skipBlank rest)
      | (_, rest) => (none, rest)
    | tokens => (none, tokens)

def depthLimit : Nat := 127

def readOuter : Nat → List Token → Option (List Item)
  | _, [] => some []
  | 0, _ => none
  | count + 1, token :: rest =>
    match readItem (readComponent (readNested depthLimit)) token rest with
    | (some item, rest) => (readOuter count rest).map (item :: ·)
    | (none, _) => none

def read? (text : String) : Option (List Item) :=
  let tokens := scan text.toList
  readOuter tokens.length tokens

end HeapLens.Pattern
