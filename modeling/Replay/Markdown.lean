import Replay.Recovery.Basic
set_option autoImplicit false

namespace Replay.Markdown

def line (s : String) : String := s ++ "\n"

def item (s : String) : String := line ("- " ++ s)

def part (title : String) (lines : List String) : String :=
  if lines.isEmpty then "" else line ("## " ++ title) ++ String.join lines ++ "\n"

def code (s : String) : String := "\x60" ++ s ++ "\x60"

def displayName (name : String) : String := if Text.isBlankText name then "(unnamed)" else name

def outcomeRow (o : Recovery.StepOutcome) : String :=
  let recoveredBy := (o.recoveredBy.map (·.name)).getD "-"
  line ("| " ++ toString (o.index + 1) ++ " " ++ code o.id ++ " | " ++ o.failure.title ++ " | " ++
    recoveredBy ++ " | " ++ toString o.resolvedIssues ++ "/" ++ toString o.foundIssues.length ++
    " |")

def outcomeHeader : List String :=
  [line "| step | failure | recovered by | resolved |",
    line "|------|---------|--------------|----------|"]

/-- A recommendation; one that is an item already is indented below the last one. -/
def recommendation (s : String) : String :=
  if Text.startsWith ['-', ' '] s.toList then line ("  " ++ s) else item s

def ofRecovery (r : Recovery.Report) : String :=
  line ("# Recovery Report: " ++ displayName r.recoveredScript.name) ++ "\n" ++
  item ("original issues: " ++ toString r.foundIssues) ++
  item ("resolved issues: " ++ toString r.resolvedIssues) ++
  item ("confidence: " ++ toString r.confidenceScore) ++
  (if r.cancelled then item "**cancelled**: later steps were not processed" else "") ++ "\n" ++
  part "Strategies" (r.appliedStrategies.map fun s => item (code s.name)) ++
  part "Steps" (if r.stepOutcomes.isEmpty then []
    else outcomeHeader ++ r.stepOutcomes.map outcomeRow) ++
  (if r.recommendations.isEmpty then ""
    else line "## Recommendations" ++ String.join (r.recommendations.map recommendation))

def failingStep (s : StepReport) : String :=
  item (toString (s.index + 1) ++ " " ++ code s.id ++ ": " ++
    ", ".intercalate (s.issues.map (·.code.name)))

def ofValidation (r : ScriptReport) : String :=
  line "# Validation" ++ "\n" ++
  item ("valid: " ++ if r.isValid then "true" else "false") ++
  item ("steps: " ++ toString r.validSteps ++ "/" ++ toString r.totalSteps ++ " valid") ++
  item ("compatibility: " ++ toString r.compatibilityScore) ++ "\n" ++
  part "Failing Steps" ((r.steps.filter (!·.isValid)).map failingStep) ++
  part "Warnings" (r.warnings.map item) ++
  part "Recommendations" (r.recommendations.map item)

end Replay.Markdown
