import Replay.Recovery.Basic
import Replay.Validation.Script
import Replay.Wire.Script
import Replay.Wire.Validation
set_option autoImplicit false

namespace Replay

structure ExecutableStep where
  id : String
  action : Option String
  params : Params
  locator : Locator
  deriving BEq, Repr

structure RecoverySummary where
  foundIssues : Nat
  resolvedIssues : Nat
  confidenceScore : Nat
  appliedStrategies : List StrategyId
  remainingIssues : List String
  cancelled : Bool
  deriving DecidableEq, Repr

structure ExecutionBundle where
  scriptName : String
  steps : List ExecutableStep
  validation : ScriptReport
  recovery : Option RecoverySummary
  deriving BEq, Repr

def Step.toExecutable (s : Step) : ExecutableStep := ⟨s.id, s.action, s.params, s.locator⟩

def Recovery.Report.summary (r : Recovery.Report) : RecoverySummary :=
  ⟨r.foundIssues, r.resolvedIssues, r.confidenceScore, r.appliedStrategies, r.remainingIssues,
    r.cancelled⟩

namespace ExecutionBundle

def isReady (b : ExecutionBundle) : Bool := b.validation.isValid

def prepare (limits : Limits) (now : Instant) (script : Script)
    (recovery : Option Recovery.Report) : ExecutionBundle :=
  let source := (recovery.map (·.recoveredScript)).getD script
  { scriptName := source.name
    steps := source.steps.map Step.toExecutable
    validation := validateScript limits now source
    recovery := recovery.map (·.summary) }

end ExecutionBundle

open Wire

namespace ExecutableStep

def toJson (s : ExecutableStep) : Json :=
  .object (put "id" (.string s.id) ++ putSome "action" .string s.action ++
    putIf (!s.params.isEmpty) "params" (.object s.params) ++ put "locator" s.locator.toJson)

def ofJson? (j : Json) : Option ExecutableStep := do
  let m ← fields? ["id", "action", "params", "locator"] j
  let id ← required m "id" readString
  let action ← optional m "action" readString
  let params ← defaulted m "params" [] readParams
  let locator ← required m "locator" Locator.ofJson?
  return { id, action, params, locator }

end ExecutableStep

namespace RecoverySummary

def toJson (r : RecoverySummary) : Json :=
  .object (put "originalIssues" (.nat r.foundIssues) ++
    put "resolvedIssues" (.nat r.resolvedIssues) ++
    put "confidenceScore" (.nat r.confidenceScore) ++
    put "appliedStrategies" (writeList StrategyId.toJson r.appliedStrategies) ++
    put "remainingIssues" (writeList .string r.remainingIssues) ++
    put "cancelled" (.bool r.cancelled))

def ofJson? (j : Json) : Option RecoverySummary := do
  let m ← fields? ["originalIssues", "resolvedIssues", "confidenceScore", "appliedStrategies",
    "remainingIssues", "cancelled"] j
  let foundIssues ← required m "originalIssues" readNat64
  let resolvedIssues ← required m "resolvedIssues" readNat64
  let confidenceScore ← required m "confidenceScore" readNat32
  let appliedStrategies ← required m "appliedStrategies" (readList StrategyId.ofJson?)
  let remainingIssues ← required m "remainingIssues" (readList readString)
  let cancelled ← required m "cancelled" readBool
  return ⟨foundIssues, resolvedIssues, confidenceScore, appliedStrategies, remainingIssues,
    cancelled⟩

end RecoverySummary

namespace ExecutionBundle

def toJson (b : ExecutionBundle) : Json :=
  .object (put "scriptName" (.string b.scriptName) ++
    put "steps" (writeList ExecutableStep.toJson b.steps) ++
    put "validation" b.validation.toJson ++ putSome "recovery" RecoverySummary.toJson b.recovery)

def ofJson? (j : Json) : Option ExecutionBundle := do
  let m ← fields? ["scriptName", "steps", "validation", "recovery"] j
  let scriptName ← required m "scriptName" readString
  let steps ← required m "steps" (readList ExecutableStep.ofJson?)
  let validation ← required m "validation" ScriptReport.ofJson?
  let recovery ← optional m "recovery" RecoverySummary.ofJson?
  return { scriptName, steps, validation, recovery }

end ExecutionBundle

end Replay
