import Replay.Cache
import Replay.CommandLine.Help
import Replay.Markdown
import Replay.Recovery.Artifact
import Replay.Recovery.Engine
import Replay.Text.Quoted
import Replay.Wire.Resolution
set_option autoImplicit false

/-!
Running commands. A command reads and writes files and yields the text to print; the clock and the
environment are given to it.
-/

namespace Replay.CommandLine

/-- A command that cannot be completed: what is printed nevertheless, what it was about, and what
went wrong in it. -/
structure Failure where
  printed : String := ""
  subject : String
  cause : Option Fault := none

structure Outcome where
  status : Nat
  printed : String := ""
  failure : Option Failure := none

def version : String := "0.1.0"

def Outcome.ofStop (vars : Config.Variables) : Stop → Outcome
  | .misuse => { status := 2 }
  | .help topic => { status := 0, printed := help grammar vars topic }
  | .version => { status := 0, printed := programName ++ " " ++ version ++ "\n" }

section

variable {m : Type → Type} [Monad m] [Files m]

abbrev Action (m : Type → Type) := ExceptT Failure m

def about {α : Type} (subject path : String) (action : m (Except Fault α)) : Action m α := do
  match ← (action : m (Except Fault α)) with
  | .ok x => return x
  | .error e => throw { subject := subject ++ " " ++ Text.quote path, cause := some e }

def readText (path : String) : Action m String :=
  about "Failed to read" path do
    match ← Files.read path with
    | some text => return .ok text
    | none => return .error .file

def writeText (path : String) (operation : m Bool) : Action m Unit :=
  about "Failed to write" path do
    if ← operation then return .ok () else return .error .file

def validate (c : Config) (now : Instant) (path : String) (markdown strict : Bool) :
    Action m String := do
  let text ← readText path
  let r := Script.validateText c.validation now text
  let printed := if markdown then Markdown.ofValidation r else r.toJson.pretty ++ "\n"
  if strict && !r.isValid then
    throw {
      printed
      subject := toString (r.totalSteps - r.validSteps) ++ " of " ++ toString r.totalSteps ++
        " steps failed validation" }
  return printed

def optimize (path : String) (output : Option String) : Action m String := do
  let script ← about "Failed to load" path (Script.load path)
  let pooled := script.optimize
  let stats := pooled.poolStats
  match output with
  | none => return pooled.toJson.pretty ++ "\n"
  | some out =>
    writeText out (Files.put out pooled.toJson.pretty)
    return "Pooled " ++ toString stats.references ++ " references into " ++
      toString stats.uniqueContents ++ " entries (" ++ toString stats.bytesSaved ++
      " bytes saved) -> " ++ Text.quote out ++ "\n"

def restore (path : String) (output : Option String) : Action m String := do
  let text ← readText path
  let script ← about "Failed to import" path do
    return (Script.importText text).mapError Fault.script
  match output with
  | none => return script.toJson.pretty ++ "\n"
  | some out =>
    writeText out (Files.write out script.toJson.pretty)
    return "Restored " ++ toString script.steps.length ++ " steps to " ++ Text.quote out ++ "\n"

def seedFrom (c : Config) (now : Instant) (path : String) (script : Script) (cache : Cache) :
    Cache :=
  let reports := (validateScript c.validation now script).steps.filter (·.isValid)
  reports.foldl
    (fun cache r =>
      match script.steps[r.index]?.bind (·.snapshot) with
      | some snapshot =>
        let (id, cache) := cache |>.put (Cache.idsAt now "seed") { snapshot, storedAt := now }
        cache.link ⟨r.id, id, some path, now⟩
      | none => cache)
    cache

def seedCache (c : Config) (now : Instant) (paths : List String) : Action m Cache :=
  paths.foldlM
    (fun cache path => do
      let script ← about "Failed to load seed" path (Script.load path)
      return seedFrom c now path script cache)
    {}

def engineFor (c : Config) (now : Instant) (cache : Cache) (target : Option Device) :
    Recovery.Engine :=
  let e := Recovery.Engine.standard c [(cache.sweep now c.cache.maxAgeSecs).toSource] now
  match target with
  | some device => e.withTarget device
  | none => e

def runName (r : Recovery.Report) : String :=
  "recover-" ++ toString (r.evaluatedAt.second * 1000 + r.evaluatedAt.nano / 1000000)

def recover (c : Config) (now : Instant) (path : String) (o : RecoverOptions) :
    Action m String := do
  let script ← about "Failed to load" path (Script.load path)
  let cache ← seedCache c now o.seeds
  let r := (engineFor c now cache o.target).recover script
  if let some out := o.output then
    about "Failed to write" out (r.recoveredScript.save out)
  if let some directory := o.artifacts then
    about "Failed to write recovery artifact to" directory
      (r.save directory (o.run.getD (runName r)))
  return if o.markdown then Markdown.ofRecovery r else r.toJson.pretty ++ "\n"

def locate (path : String) (l : Locator) : Action m String := do
  if l.isEmpty then
    throw { subject := "Provide at least one of --xpath, --bounds, --resource-id, --text, " ++
      "--content-desc, --class-name" }
  let content ← readText path
  match Locator.resolveIn content l with
  | none => throw { subject := "No element in " ++ Text.quote path ++ " matches the locator" }
  | some found =>
    let answer := Json.object [("locator", (Locator.ofResolved found).toJson),
      ("match", found.toJson)]
    return answer.sorted.pretty ++ "\n"

def execute (c : Config) (now : Instant) : Command → Action m String
  | .validate script markdown strict => validate c now script markdown strict
  | .optimize script output => optimize script output
  | .restore script output => restore script output
  | .recover script options => recover c now script options
  | .locate xml locator => locate xml locator

def settings (vars : Config.Variables) (path : Option String) : Action m Config := do
  let failed (cause : Fault) : Failure :=
    { subject := "Failed to load snapguard configuration", cause := some cause }
  let text ← match path with
    | none => pure none
    | some path =>
      match ← (Files.read path : m (Option String)) with
      | some text => pure (some text)
      | none => throw (failed .file)
  match Config.load text vars with
  | .ok c => return c
  | .error e => throw (failed (.settings e))

def run (vars : Config.Variables) (now : Instant) (words : List String) : m Outcome := do
  match parse vars words with
  | .error stop => return .ofStop vars stop
  | .ok call =>
    let action : Action m String := do
      let c ← settings vars call.config
      execute c now call.command
    match ← action.run with
    | .ok printed => return { status := 0, printed }
    | .error e => return { status := 1, printed := e.printed, failure := some e }

end

end Replay.CommandLine
