import Replay.Decimal.Rounded
import Replay.Pool
import Replay.Validation.Snapshot
set_option autoImplicit false

/-!
Validation of steps and of whole scripts. A step is valid when its snapshot is valid and it has a
locator. Pooled contents are put back before a script is looked at.
-/

namespace Replay

def missingSnapshot (index : Nat) : Issue :=
  ⟨.missingXmlSnapshot, s!"step {index + 1} has no xml snapshot", .error,
    some "re-record the step with snapshot capture enabled"⟩

def missingLocator (index : Nat) : Issue :=
  ⟨.missingLocator, s!"step {index + 1} has no element locator", .error,
    some "record at least one of xpath, resource id, text or bounds"⟩

def validateStep (limits : Limits) (now : Instant) (index : Nat) (step : Step) : StepReport :=
  let report := step.snapshot.map (validateSnapshot limits now)
  let onSnapshot := match report with
    | none => [missingSnapshot index]
    | some r => r.issues
  let located := !step.locator.isEmpty
  { index, id := step.id, snapshot := report
    isValid := located && report.any (·.isValid)
    issues := onSnapshot ++ if located then [] else [missingLocator index] }

def validateSteps (limits : Limits) (now : Instant) (steps : List Step) : List StepReport :=
  steps.mapIdx (validateStep limits now)

open Decimal in
def share (points part total : Nat) : Rounded :=
  if total = 0 then ⟨0, 1⟩
  else Rounded.mul (.ofNat points) (Rounded.div (.ofNat part) (.ofNat total))

open Decimal in
/-- Up to one hundred points: for a version, a platform and metadata, and in proportion to the
valid steps and to the steps with a known device. -/
def compatibilityScore (s : Script) (steps : List StepReport) : Nat :=
  let fixed := (if s.hasVersion then 20 else 0) + (if s.platform.isSome then 15 else 0) +
    (if s.metadata.isSome then 10 else 0)
  let valid := share 40 (steps.countP (·.isValid)) steps.length
  let known := share 15 (steps.countP (·.hasDevice)) steps.length
  (Rounded.add (Rounded.add (.ofNat fixed) valid) known).toNat

def counted (n : Nat) (before after : String) : List String :=
  if n = 0 then [] else [before ++ toString n ++ after]

def remark (needed : Bool) (text : String) : List String := if needed then [text] else []

def compatibilityWarnings (s : Script) (steps : List StepReport) : List String :=
  remark (!s.hasVersion) "script has no version; compatibility cannot be tracked" ++
  remark s.platform.isNone "no target platform set; replay on other platforms may fail" ++
  counted (steps.countP (·.hasIssue .missingXmlSnapshot)) ""
    " step(s) have no xml snapshot; cross-device replay is limited"

def validationRecommendations (s : Script) (steps : List StepReport) : List String :=
  counted (steps.countP (!·.isValid)) "fix the xml snapshots of " " invalid step(s)" ++
  remark (!s.hasVersion) "add a version to the script" ++
  remark s.platform.isNone "set the target platform in the script metadata" ++
  counted (steps.countP (!·.hasDevice)) "add device information to " " step(s)" ++
  counted (steps.countP (·.hasIssue .xmlTooLarge)) "reduce the xml size of " " step(s)" ++
  counted (steps.countP (·.hasIssue .missingLocator)) "record element locators for " " step(s)"

def summarize (s : Script) (steps : List StepReport) : ScriptReport where
  isValid := steps.all (·.isValid)
  totalSteps := steps.length
  validSteps := steps.countP (·.isValid)
  steps := steps
  issues := steps.flatMap (·.issues)
  warnings := compatibilityWarnings s steps
  compatibilityScore := compatibilityScore s steps
  recommendations := validationRecommendations s steps

def validateScript (limits : Limits) (now : Instant) (script : Script) : ScriptReport :=
  let script := script.restore
  summarize script (validateSteps limits now script.steps)

def unreadableScript (message : String) : ScriptReport where
  isValid := false
  totalSteps := 0
  validSteps := 0
  steps := []
  issues := [⟨.invalidScriptFormat, message, .error, none⟩]
  warnings := []
  compatibilityScore := 0
  recommendations := ["check that the script file is a valid script export"]

def quickCheck (limits : Limits) (step : Step) : QuickReport :=
  let hasSnapshot := step.snapshot.any (·.hasContent)
  let issues :=
    remark (!hasSnapshot) "missing xml content" ++
    remark (step.snapshot.all fun s => Text.isBlankText s.device.id) "missing device information" ++
    remark (step.snapshot.bind (·.capturedAt)).isNone "missing capture timestamp" ++
    remark (step.snapshot.any fun s => s.hasContent && s.size < limits.minSizeBytes)
      "xml content is too short and may be incomplete"
  { hasSnapshot, isValid := issues.isEmpty, issues }

end Replay
