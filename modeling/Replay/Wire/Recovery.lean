import Replay.Recovery.Basic
import Replay.Wire.Script
import Replay.Wire.Validation
set_option autoImplicit false

namespace Replay.Recovery

open Wire

def FailureKind.toJson (k : FailureKind) : Json := .string k.name

def FailureKind.ofJson? : Json → Option FailureKind := readName FailureKind.all FailureKind.name

namespace Result

def toJson (r : Result) : Json :=
  .object (put "success" (.bool r.success) ++ put "strategyId" r.strategy.toJson ++
    putSome "recovered" Snapshot.toJson r.recovered ++
    put "warnings" (writeList .string r.warnings) ++
    put "recommendations" (writeList .string r.recommendations))

def ofJson? (j : Json) : Option Result := do
  let m ← fields? ["success", "strategyId", "recovered", "warnings", "recommendations"] j
  let success ← required m "success" readBool
  let strategy ← required m "strategyId" StrategyId.ofJson?
  let recovered ← optional m "recovered" Snapshot.ofJson?
  let warnings ← required m "warnings" (readList readString)
  let recommendations ← required m "recommendations" (readList readString)
  return { success, strategy, recovered, warnings, recommendations }

end Result

namespace StepOutcome

def toJson (o : StepOutcome) : Json :=
  .object (put "stepIndex" (.nat o.index) ++ put "stepId" (.string o.id) ++
    put "failure" o.failure.toJson ++
    put "originalIssues" (writeList Issue.toJson o.foundIssues) ++
    put "attempts" (writeList Result.toJson o.attempts) ++
    put "recoveredBy" (writeOption StrategyId.toJson o.recoveredBy) ++
    put "resolvedIssues" (.nat o.resolvedIssues))

def ofJson? (j : Json) : Option StepOutcome := do
  let m ← fields? ["stepIndex", "stepId", "failure", "originalIssues", "attempts", "recoveredBy",
    "resolvedIssues"] j
  let index ← required m "stepIndex" readNat64
  let id ← required m "stepId" readString
  let failure ← required m "failure" FailureKind.ofJson?
  let foundIssues ← required m "originalIssues" (readList Issue.ofJson?)
  let attempts ← required m "attempts" (readList Result.ofJson?)
  let recoveredBy ← optional m "recoveredBy" StrategyId.ofJson?
  let resolvedIssues ← required m "resolvedIssues" readNat64
  return { index, id, failure, foundIssues, attempts, recoveredBy, resolvedIssues }

end StepOutcome

namespace Report

def toJson (r : Report) : Json :=
  .object (put "originalIssues" (.nat r.foundIssues) ++
    put "resolvedIssues" (.nat r.resolvedIssues) ++
    put "appliedStrategies" (writeList StrategyId.toJson r.appliedStrategies) ++
    put "remainingIssues" (writeList .string r.remainingIssues) ++
    put "confidenceScore" (.nat r.confidenceScore) ++
    put "recommendations" (writeList .string r.recommendations) ++
    put "stepOutcomes" (writeList StepOutcome.toJson r.stepOutcomes) ++
    put "cancelled" (.bool r.cancelled) ++ put "recoveredScript" r.recoveredScript.toJson ++
    put "evaluatedAt" (writeInstant r.evaluatedAt))

def ofJson? (j : Json) : Option Report := do
  let m ← fields? ["originalIssues", "resolvedIssues", "appliedStrategies", "remainingIssues",
    "confidenceScore", "recommendations", "stepOutcomes", "cancelled", "recoveredScript",
    "evaluatedAt"] j
  let foundIssues ← required m "originalIssues" readNat64
  let resolvedIssues ← required m "resolvedIssues" readNat64
  let appliedStrategies ← required m "appliedStrategies" (readList StrategyId.ofJson?)
  let remainingIssues ← required m "remainingIssues" (readList readString)
  let confidenceScore ← required m "confidenceScore" readNat32
  let recommendations ← required m "recommendations" (readList readString)
  let stepOutcomes ← required m "stepOutcomes" (readList StepOutcome.ofJson?)
  let cancelled ← required m "cancelled" readBool
  let recoveredScript ← required m "recoveredScript" Script.ofJson?
  let evaluatedAt ← required m "evaluatedAt" readInstant
  return ⟨foundIssues, resolvedIssues, appliedStrategies, remainingIssues, confidenceScore,
    recommendations, stepOutcomes, cancelled, recoveredScript, evaluatedAt⟩

end Report

end Replay.Recovery
