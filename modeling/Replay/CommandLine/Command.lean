import Replay.CommandLine.Reader
import Replay.Config.Load
import Replay.Script
set_option autoImplicit false

namespace Replay.CommandLine

structure RecoverOptions where
  output : Option String := none
  /-- Scripts whose valid snapshots may be borrowed. -/
  seeds : List String := []
  target : Option Device := none
  artifacts : Option String := none
  run : Option String := none
  markdown : Bool := false

inductive Command where
  | validate (script : String) (markdown strict : Bool)
  | optimize (script : String) (output : Option String)
  | restore (script : String) (output : Option String)
  | recover (script : String) (options : RecoverOptions)
  | locate (xml : String) (locator : Locator)

structure Invocation where
  command : Command
  config : Option String

def screen? (s : String) : Option ScreenSize :=
  let width := s.toList.takeWhile fun c => c != 'x' && c != 'X'
  let side? (s : List Char) : Option Nat :=
    (Text.readUnsigned? (Text.trim s)).filter (· < UInt32.size)
  match s.toList.drop width.length with
  | [] => none
  | _ :: height => do
    let width ← side? width
    let height ← side? height
    return { width, height }

def isPath (s : String) : Bool := !s.isEmpty

def flag (name about : String) : Opt := { name, about, arity := .flag }

def textOption (name valueName about : String) : Opt := { name, valueName, about, arity := .single }

def pathOption (name valueName about : String) : Opt :=
  { textOption name valueName about with admits := isPath }

def output (about : String) : Opt := { pathOption "output" "OUTPUT" about with letter := some 'o' }

def recoverOptions : List Opt := [
  output "Write the recovered script (pooled) here",
  { pathOption "seed" "SCRIPT" "Scripts whose valid snapshots seed the lookup cache" with
    arity := .repeated },
  textOption "target-device" "TARGET_DEVICE" "Adapt steps to this device id",
  textOption "target-name" "TARGET_NAME" "Display name of the target device",
  { textOption "target-screen" "TARGET_SCREEN" "Target screen size, e.g. 1080x2340" with
    admits := fun s => (screen? s).isSome },
  pathOption "artifact-dir" "ARTIFACT_DIR" "Directory for digest-verified report artifacts",
  textOption "run-id" "RUN_ID" "Artifact run id (default: generated)",
  flag "markdown" "Print a markdown report instead of JSON"]

def locateOptions : List Opt := [
  { pathOption "xml" "XML" "Hierarchy XML file" with required := true },
  textOption "xpath" "XPATH" "",
  { textOption "bounds" "BOUNDS" "Exact bounds, e.g. [0,0][100,50]" with
    admits := fun s => (Rect.parse? s).isSome },
  textOption "resource-id" "RESOURCE_ID" "",
  textOption "text" "TEXT" "",
  textOption "content-desc" "CONTENT_DESC" "",
  textOption "class-name" "CLASS_NAME" ""]

def configVariable : String := "SNAPGUARD_CONFIG"

def grammar : Grammar where
  shared := [
    { flag "verbose" "Enable verbose output" with letter := some 'v' },
    flag "json" "Emit JSON-formatted log lines",
    { pathOption "config" "CONFIG" "TOML configuration file" with
      substitute := some configVariable }]
  commands := [
    { name := "validate", operands := 1, about := "Validate a script file"
      operandAbout := "Script file (JSON, pooled or inline)"
      options := [flag "markdown" "Print a markdown summary instead of JSON",
        flag "strict" "Exit with an error when any step is invalid"] },
    { name := "optimize", operands := 1
      about := "Move snapshot content into the deduplicated pool"
      options := [output "Output path (default: stdout)"] },
    { name := "restore", operands := 1, about := "Inline pooled snapshot content into every step"
      options := [output "Output path (default: stdout)"] },
    { name := "recover", operands := 1, about := "Recover failing steps"
      options := recoverOptions },
    { name := "locate", operands := 0
      about := "Resolve an element locator against a hierarchy dump"
      options := locateOptions }]

namespace Reading

def requires (r : Reading) (name needed : String) : Bool := !r.flag name || r.flag needed

def target (r : Reading) : Option Device :=
  (r.value? "target-device").map fun id =>
    { id, name := (r.value? "target-name").getD id
      screen := r.value? "target-screen" >>= screen? }

def recoverOptions? (r : Reading) : Option RecoverOptions :=
  if r.requires "target-name" "target-device" && r.requires "target-screen" "target-device" &&
      r.requires "run-id" "artifact-dir" then
    some {
      output := r.value? "output"
      seeds := r.values "seed"
      target := r.target
      artifacts := r.value? "artifact-dir"
      run := r.value? "run-id"
      markdown := r.flag "markdown" }
  else none

def locator (r : Reading) : Locator where
  xpathField := r.value? "xpath"
  resourceIdField := r.value? "resource-id"
  textField := r.value? "text"
  contentDescField := r.value? "content-desc"
  classNameField := r.value? "class-name"
  bounds := r.value? "bounds" >>= Rect.parse?

def command? (r : Reading) : Option Command :=
  match r.command.map (·.name), r.operands with
  | some "validate", [script] => some (.validate script (r.flag "markdown") (r.flag "strict"))
  | some "optimize", [script] => some (.optimize script (r.value? "output"))
  | some "restore", [script] => some (.restore script (r.value? "output"))
  | some "recover", [script] => r.recoverOptions?.map (.recover script)
  | some "locate", [] => (r.value? "xml").map (.locate · r.locator)
  | _, _ => none

/-- The file with settings: the one named last, or else the one that the environment names. Where no
file is named, the environment must not name an empty one. -/
def config (r : Reading) (vars : Config.Variables) : Except Stop (Option String) :=
  let named (given : List Given) : Option String :=
    (given.find? (·.name == "config")).map (·.value)
  let unnamed := vars configVariable
  if unnamed = some "" ∧ ((named r.before).isNone ∨ (named r.after).isNone) then .error .misuse
  else .ok (named r.after <|> named r.before <|> unnamed)

end Reading

def parse (vars : Config.Variables) (words : List String) : Except Stop Invocation := do
  let r ← read grammar words
  let config ← r.config vars
  match r.command? with
  | some command => return { command, config }
  | none => throw .misuse

end Replay.CommandLine
