import HeapLens.Snapshot.Load
import HeapLens.Time.Epoch
import HeapLens.Toml.Reader

set_option autoImplicit false

namespace HeapLens

structure Config where
  format : EpochFormat
  logFilter : String
  deriving DecidableEq, Repr

inductive ConfigError where
  | unreadable
  | malformed
  deriving DecidableEq, Repr

namespace Config

def standard : Config where
  format := .standard
  logFilter := "warn"

def parts? (keys : List String) : Toml → Option (List (Option Toml))
  | .table _ entries => some (keys.map fun key => entries.lookup key)
  | .moment _ => some (keys.map fun _ => none)
  | .array items => some ((items.map some ++ keys.map fun _ => none).take keys.length)
  | .tables elements =>
    some ((elements.map (fun entries => some (Toml.table .header entries)) ++
      keys.map fun _ => none).take keys.length)
  | _ => none

def part? {α : Type} (default : α) (read : Toml → Option α) : Option Toml → Option α
  | none => some default
  | some value => read value

def text? : Toml → Option String
  | .text s => some s
  | _ => none

def int32? : Toml → Option Int32
  | .integer n =>
    if Int32.minValue.toInt ≤ n.toInt ∧ n.toInt ≤ Int32.maxValue.toInt then
      some (Int32.ofInt n.toInt)
    else none
  | _ => none

def format? (value : Toml) : Option EpochFormat :=
  match parts? ["epoch_pattern", "utc_offset_minutes", "wrong_type"] value with
  | some [pattern, offset, wrongType] => do
    let pattern ← part? EpochFormat.standard.pattern text? pattern
    let offsetMinutes ← part? EpochFormat.standard.offsetMinutes int32? offset
    let wrongType ← part? EpochFormat.standard.wrongType text? wrongType
    some { pattern, offsetMinutes, wrongType }
  | _ => none

def logFilter? (value : Toml) : Option String :=
  match parts? ["filter"] value with
  | some [filter] => part? standard.logFilter text? filter
  | _ => none

def read? (text : String) : Option Config := do
  let entries ← Toml.read? text
  let format ← part? standard.format format? (entries.lookup "format")
  let logFilter ← part? standard.logFilter logFilter? (entries.lookup "log")
  some { format, logFilter }

/-- The configuration in a file; without a file there is the standard one. -/
def load : FileContent → Except ConfigError Config
  | .absent => .ok standard
  | file =>
    match file.text? with
    | none => .error .unreadable
    | some text =>
      match read? text with
      | none => .error .malformed
      | some config => .ok config

end Config

end HeapLens
