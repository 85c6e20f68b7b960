import Replay.Config.Load
import Replay.Exchange
import Replay.Files.Basic
set_option autoImplicit false

namespace Replay

inductive Fault where
  | file
  | script (e : Script.ImportError)
  | settings (e : Config.Error)
  | report
  | digests (expected actual : String)

def Fault.message : Fault → String
  | file => "io error: the file cannot be read or written"
  | script .notJson => "serialization error: " ++ Script.ImportError.notJson.message
  | script e => "invalid script: " ++ e.message
  | settings e => e.message
  | report => "serialization error: not a report"
  | digests expected actual => "digest mismatch: expected " ++ expected ++ ", got " ++ actual

namespace Script

variable {m : Type → Type} [Monad m] [Files m]

def save (s : Script) (path : String) : m (Except Fault Unit) := do
  if ← Files.put path s.exportText then return .ok () else return .error .file

def load (path : String) : m (Except Fault Script) := do
  match ← Files.read path with
  | some text => return (importText text).mapError .script
  | none => return .error .file

end Script

end Replay
