import Replay.Validation.Basic
import Replay.Wire.Record
set_option autoImplicit false

namespace Replay

open Wire

def IssueCode.toJson (c : IssueCode) : Json := .string c.name

def IssueCode.ofJson? : Json → Option IssueCode := readName IssueCode.all IssueCode.name

def IssueSeverity.toJson (s : IssueSeverity) : Json := .string s.name

def IssueSeverity.ofJson? : Json → Option IssueSeverity :=
  readName IssueSeverity.all IssueSeverity.name

def Severity.toJson (s : Severity) : Json := .string s.name

def Severity.ofJson? : Json → Option Severity := readName Severity.all Severity.name

def Check.ofName? (name : String) : Option Check := Check.all.find? fun c => c.name == name

namespace Issue

def toJson (i : Issue) : Json :=
  .object (put "code" i.code.toJson ++ put "message" (.string i.message) ++
    put "severity" i.severity.toJson ++ putSome "suggestion" .string i.suggestion)

def ofJson? (j : Json) : Option Issue := do
  let m ← fields? ["code", "message", "severity", "suggestion"] j
  let code ← required m "code" IssueCode.ofJson?
  let message ← required m "message" readString
  let severity ← required m "severity" IssueSeverity.ofJson?
  let suggestion ← optional m "suggestion" readString
  return { code, message, severity, suggestion }

end Issue

namespace Checks

def toJson (c : Checks) : Json := .object (c.map fun (check, ok) => (check.name, .bool ok))

def ofJson? : Json → Option Checks
  | .object members => do
    let pairs ← members.mapM fun (key, j) => do return (← Check.ofName? key, ← readBool j)
    return Ordered.ofList pairs
  | _ => none

end Checks

namespace SnapshotReport

def toJson (r : SnapshotReport) : Json :=
  .object (put "checks" (Checks.toJson r.checks) ++ put "issues" (writeList Issue.toJson r.issues) ++
    put "severity" r.severity.toJson ++ put "score" (.nat r.score))

def ofJson? (j : Json) : Option SnapshotReport := do
  let m ← fields? ["checks", "issues", "severity", "score"] j
  let checks ← required m "checks" Checks.ofJson?
  let issues ← required m "issues" (readList Issue.ofJson?)
  let severity ← required m "severity" Severity.ofJson?
  let score ← required m "score" readNat32
  return { checks, issues, severity, score }

end SnapshotReport

namespace StepReport

def toJson (r : StepReport) : Json :=
  .object (put "stepIndex" (.nat r.index) ++ put "stepId" (.string r.id) ++
    put "isValid" (.bool r.isValid) ++ putSome "validation" SnapshotReport.toJson r.snapshot ++
    put "issues" (writeList Issue.toJson r.issues))

def ofJson? (j : Json) : Option StepReport := do
  let m ← fields? ["stepIndex", "stepId", "isValid", "validation", "issues"] j
  let index ← required m "stepIndex" readNat64
  let id ← required m "stepId" readString
  let isValid ← required m "isValid" readBool
  let snapshot ← optional m "validation" SnapshotReport.ofJson?
  let issues ← required m "issues" (readList Issue.ofJson?)
  return { index, id, isValid, snapshot, issues }

end StepReport

namespace ScriptReport

def toJson (r : ScriptReport) : Json :=
  .object (put "isValid" (.bool r.isValid) ++ put "totalSteps" (.nat r.totalSteps) ++
    put "validSteps" (.nat r.validSteps) ++ put "steps" (writeList StepReport.toJson r.steps) ++
    put "issues" (writeList Issue.toJson r.issues) ++
    put "warnings" (writeList .string r.warnings) ++
    put "compatibilityScore" (.nat r.compatibilityScore) ++
    put "recommendations" (writeList .string r.recommendations))

def ofJson? (j : Json) : Option ScriptReport := do
  let m ← fields? ["isValid", "totalSteps", "validSteps", "steps", "issues", "warnings",
    "compatibilityScore", "recommendations"] j
  let isValid ← required m "isValid" readBool
  let totalSteps ← required m "totalSteps" readNat64
  let validSteps ← required m "validSteps" readNat64
  let steps ← required m "steps" (readList StepReport.ofJson?)
  let issues ← required m "issues" (readList Issue.ofJson?)
  let warnings ← required m "warnings" (readList readString)
  let compatibilityScore ← required m "compatibilityScore" readNat32
  let recommendations ← required m "recommendations" (readList readString)
  return ⟨isValid, totalSteps, validSteps, steps, issues, warnings, compatibilityScore,
    recommendations⟩

end ScriptReport

def QuickReport.toJson (r : QuickReport) : Json :=
  .object (put "hasSnapshot" (.bool r.hasSnapshot) ++ put "isValid" (.bool r.isValid) ++
    put "issues" (writeList .string r.issues))

end Replay
