import Replay.CommandLine.Run
import Std.Time.DateTime.Timestamp
set_option autoImplicit false

namespace Replay.Program

def completes (operation : IO Unit) : IO Bool := do
  try
    operation
    return true
  catch _ => return false

instance : Files IO where
  read path := do
    try
      return some (← IO.FS.readFile path)
    catch _ => return none
  write path text := completes (IO.FS.writeFile path text)
  replace path text := completes do
    let draft := path ++ ".draft"
    IO.FS.writeFile draft text
    try
      IO.FS.rename draft path
    catch e =>
      IO.FS.removeFile draft
      throw e
  createDirectories path := completes (IO.FS.createDirAll path)

def currentInstant : IO Instant := do
  let t ← Std.Time.Timestamp.now
  return ⟨t.val.second.val, t.val.nano.val.toNat⟩

def knownVariables : List String :=
  [CommandLine.configVariable, "SNAPGUARD_MIN_XML_BYTES", "SNAPGUARD_MAX_XML_BYTES",
    "SNAPGUARD_CLOCK_SKEW_SECS", "SNAPGUARD_LOOKUP_TIMEOUT_MS", "SNAPGUARD_REGENERATION",
    "SNAPGUARD_CACHE_MAX_AGE_SECS"]

def environment : IO Config.Variables := do
  let pairs ← knownVariables.filterMapM fun key => do
    return (← IO.getEnv key).map fun value => (key, value)
  return fun key => Ordered.get? key pairs

def report (outcome : CommandLine.Outcome) : IO Unit := do
  IO.print outcome.printed
  if let some e := outcome.failure then
    IO.eprintln ("Error: " ++ e.subject)
    if let some cause := e.cause then
      IO.eprintln ("\nCaused by:\n    " ++ cause.message)
  else if outcome.status ≠ 0 then
    IO.eprint CommandLine.Help.usage

end Replay.Program

def main (words : List String) : IO UInt32 := do
  let vars ← Replay.Program.environment
  let now ← Replay.Program.currentInstant
  let outcome : Replay.CommandLine.Outcome ← Replay.CommandLine.run vars now words
  Replay.Program.report outcome
  return outcome.status.toUInt32
