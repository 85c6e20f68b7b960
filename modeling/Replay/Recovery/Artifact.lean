import Replay.Fault
import Replay.Wire.Recovery
set_option autoImplicit false

/-!
Reports kept in files: the report of a run lies in a directory with the name of the run, beside the
digest of its text. A report is read only if its text still has that digest.
-/

namespace Replay.Recovery.Report

def fileText (r : Report) : String := r.toJson.pretty

def ofFileText (text kept : String) : Except Fault Report :=
  let expected := Text.trimmed kept
  let actual := (ContentHash.of text).text
  if expected ≠ actual then .error (.digests expected actual)
  else
    match Json.parse? text >>= ofJson? with
    | some r => .ok r
    | none => .error .report

def textPath (directory run : String) : String := Files.join (Files.join directory run) "recovery.json"

def digestPath (directory run : String) : String :=
  Files.join (Files.join directory run) "recovery.digest"

variable {m : Type → Type} [Monad m] [Files m]

def save (r : Report) (directory run : String) : m (Except Fault Unit) := do
  let text := r.fileText
  if !(← Files.createDirectories (Files.join directory run)) then return .error .file
  if !(← Files.write (textPath directory run) text) then return .error .file
  if !(← Files.write (digestPath directory run) (ContentHash.of text).text) then return .error .file
  return .ok ()

def load (directory run : String) : m (Except Fault Report) := do
  match ← Files.read (textPath directory run), ← Files.read (digestPath directory run) with
  | some text, some kept => return ofFileText text kept
  | _, _ => return .error .file

end Replay.Recovery.Report
