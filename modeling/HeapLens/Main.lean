import HeapLens.CommandLine.Answer

set_option autoImplicit false

namespace HeapLens.CommandLine

def contentAt (path : String) : IO FileContent := do
  try
    return .bytes (← IO.FS.readBinFile path)
  catch
    | .noFileOrDirectory .. => return .absent
    | _ => return .unreadable

def configDirectory : IO (Option String) := do
  match ← IO.getEnv "XDG_CONFIG_HOME" with
  | some directory =>
    if directory.startsWith "/" then return some directory
  | none => pure ()
  return (← IO.getEnv "HOME").map (· ++ "/.config")

def defaultConfig : IO (Option String) := do
  match ← IO.getEnv "HEAPQL_CONFIG" with
  | some path => return some path
  | none => return (← configDirectory).map (· ++ "/heapql/config.toml")

end HeapLens.CommandLine

open HeapLens HeapLens.CommandLine

def main (words : List String) : IO UInt32 := do
  let config ← defaultConfig
  let files ← (Answer.filesFor config words).mapM fun path => return (path, ← contentAt path)
  let answer := Answer.ofWords (fun path => (files.lookup path).getD .absent) config words
  IO.print answer.output
  IO.eprint answer.diagnostics
  return answer.code.toUInt32
