import Replay.Json.Printer
import Replay.Json.Reader
import Replay.Pool
import Replay.Validation.Script
import Replay.Wire.Script
set_option autoImplicit false

namespace Replay.Script

def exportText (s : Script) : String := s.optimize.toJson.pretty

inductive ImportError where
  | notJson
  | noSteps
  | wrongShape
  deriving DecidableEq, Repr

/-- A value with an array of steps is read as a script; pooled contents stay in the pool. -/
def ofText (text : String) : Except ImportError Script :=
  match Json.parse? text with
  | none => .error .notJson
  | some j =>
    match j.get? "steps", ofJson? j with
    | some (.array _), some s => .ok s
    | some (.array _), none => .error .wrongShape
    | _, _ => .error .noSteps

def importText (text : String) : Except ImportError Script := (ofText text).map restore

def ImportError.message : ImportError → String
  | .notJson => "invalid json"
  | .noSteps => "script has no steps array"
  | .wrongShape => "unexpected shape"

def ImportError.report : ImportError → ScriptReport
  | .notJson => unreadableScript ("script is not valid json: " ++ ImportError.notJson.message)
  | .noSteps => unreadableScript ImportError.noSteps.message
  | .wrongShape =>
    unreadableScript ("script does not match the expected shape: " ++ ImportError.wrongShape.message)

def validateText (limits : Limits) (now : Instant) (text : String) : ScriptReport :=
  match ofText text with
  | .ok s => validateScript limits now s
  | .error e => e.report

end Replay.Script
