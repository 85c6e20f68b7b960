import Replay.Decimal.Rounded
import Replay.Recovery.Chain
import Replay.Total
import Replay.Validation.Script
set_option autoImplicit false

/-!
Recovery of a script. Every failing step runs through the plan of the chain until a result is
accepted; a result is accepted if its snapshot is valid, or no worse than what the step had. Steps
are looked at as they were before the pass, so that no step's outcome depends on another's.
-/

namespace Replay.Recovery

open Decimal in
/-- Eighty points in proportion to the resolved issues and five for each strategy that helped, up
to twenty; all of a hundred if there were no issues. -/
def confidenceScore (found resolved strategies : Nat) : Nat :=
  if found = 0 then 100
  else
    let ratio := Rounded.div (.ofNat resolved) (.ofNat found)
    let points := Rounded.add (Rounded.mul ratio (.ofNat 80)) (.ofNat (min (strategies * 5) 20))
    min points.toNat (UInt32.size - 1)

/-- The moments at which a pass reads the clock. It comes to each of them once at most. -/
inductive Moment where
  | survey (index : Nat)
  /-- A failing step is looked at again when its turn comes. -/
  | turn (index : Nat)
  | attempt (index : Nat)
  /-- A step is looked at with the snapshot that a strategy proposes. -/
  | proposal (index : Nat) (strategy : StrategyId)
  /-- That snapshot is looked at on its own. -/
  | verdict (index : Nat) (strategy : StrategyId)
  | review (index : Nat)
  deriving DecidableEq, Repr

structure Engine where
  limits : Limits := {}
  chain : Chain
  target : Option Device := none
  now : Instant
  /-- What the clock shows on the way; by default one reading serves the whole pass. -/
  clock : Moment → Instant := fun _ => now

structure Progress where
  steps : Nat
  /-- Queries made so far, the last one first. -/
  queries : List Query

namespace Engine

def standard (config : Config) (sources : List Source) (now : Instant) : Engine where
  limits := config.validation
  chain := .standard sources config.recovery.allowRegeneration
  now := now

def withTarget (e : Engine) (device : Device) : Engine :=
  { e with target := some device |>.filter (·.hasIdentity) }

def classify (e : Engine) (step : Step) (report : StepReport) : Option FailureKind :=
  if report.isValid then
    match e.target, step.snapshot with
    | some target, some s => if s.device.id = target.id then none else some .deviceIncompatible
    | _, _ => none
  else if step.snapshot.any (·.hasContent) then some .corrupted
  else some .missing

/-- The severity of a step; without a snapshot it is critical. -/
def severityOf (r : StepReport) : Severity := (r.snapshot.map (·.severity)).getD .critical

/-- No code that was absent before, and the severity is not raised. -/
def noWorse (before after : StepReport) : Bool :=
  after.issues.all (fun i => before.hasIssue i.code) &&
    (severityOf after).rank ≤ (severityOf before).rank

def accept? (e : Engine) (c : Context) (strategy : StrategyId) (before : StepReport) (r : Result) :
    Option StepReport := do
  let s ← r.recovered
  let after := validateStep e.limits (e.clock (.proposal c.index strategy)) c.index
    { c.step with snapshot := some s }
  let alone := validateSnapshot e.limits (e.clock (.verdict c.index strategy)) s
  if alone.isValid || noWorse before after then some after else none

structure Trial where
  results : List Result
  queries : List Query
  accepted : Option (Result × StepReport)

def tryAll (e : Engine) (c : Context) (before : StepReport) : List Strategy → Trial
  | [] => ⟨[], [], none⟩
  | s :: rest =>
    let attempt := s.attempt c
    let r := attempt.result
    match if r.success then e.accept? c s.id before r else none with
    | some after => ⟨[r], attempt.queries, some (r, after)⟩
    | none =>
      let r := if r.success then r.reject else r
      let later := tryAll e c before rest
      ⟨r :: later.results, attempt.queries ++ later.queries, later.accepted⟩

structure Recovered where
  outcome : StepOutcome
  step : Step
  queries : List Query

/-- Recover one step; if no result is accepted, the fallback has the last word. -/
def recoverStep (e : Engine) (c : Context) : Recovered :=
  let before := validateStep e.limits (e.clock (.turn c.index)) c.index c.step
  let trial := e.tryAll c before (e.chain.plan c.failure c.issues)
  let outcome : StepOutcome :=
    ⟨c.index, c.step.id, c.failure, c.issues, trial.results, none, 0⟩
  match trial.accepted with
  | some (r, after) =>
    { outcome := { outcome with
        recoveredBy := some r.strategy
        resolvedIssues := c.issues.countP fun i => !after.hasIssue i.code }
      step := { c.step with snapshot := r.recovered }
      queries := trial.queries }
  | none =>
    let last := e.chain.fallback.attempt c
    { outcome := { outcome with attempts := trial.results ++ [last.result] }
      step := c.step
      queries := trial.queries ++ last.queries }

def recoverSteps (e : Engine) (cancelled : Progress → Bool) (p : Progress) :
    List Context → List Recovered × Bool
  | [] => ([], false)
  | c :: rest =>
    if cancelled p then ([], true)
    else
      let done := e.recoverStep c
      let (later, stopped) :=
        recoverSteps e cancelled ⟨p.steps + 1, done.queries.reverse ++ p.queries⟩ rest
      (done :: later, stopped)

def survey (e : Engine) (script : Script) : List StepReport :=
  script.steps.mapIdx fun i step => validateStep e.limits (e.clock (.survey i)) i step

def context? (e : Engine) (localSources : List Source) (step : Step) (report : StepReport) :
    Option Context :=
  (e.classify step report).map fun failure =>
    { index := report.index, step, failure, issues := if report.isValid then [] else report.issues
      target := e.target, localSources, now := e.clock (.attempt report.index) }

def contexts (e : Engine) (script : Script) (reports : List StepReport) : List Context :=
  let localSources := [Source.ofSiblings (siblings script reports)]
  (script.steps.zip reports).filterMap fun (step, report) => e.context? localSources step report

def unresolved (e : Engine) (r : Recovered) : List String :=
  let after := validateStep e.limits (e.clock (.review r.outcome.index)) r.outcome.index r.step
  (r.outcome.foundIssues.filter fun i => after.hasIssue i.code).map fun i =>
    "step " ++ toString (r.outcome.index + 1) ++ ": " ++ i.code.name ++ ": " ++ i.message

def applied (done : List Recovered) : List StrategyId :=
  (done.filterMap (·.outcome.recoveredBy)).foldl
    (fun ids id => if ids.contains id then ids else ids ++ [id]) []

def recommendations (remaining : List String) (applied : List StrategyId) (found : Nat) :
    List String :=
  (if remaining.isEmpty then []
    else "remaining issues need manual handling:" :: remaining.map ("- " ++ ·)) ++
  remark (applied.contains .xmlRegeneration)
    "script contains synthetic xml; test it in a real environment" ++
  remark (applied.contains .cacheLookup)
    "borrowed snapshots were used; verify they match the app version" ++
  remark (applied.isEmpty && 0 < found)
    "automatic recovery failed; check the script source and integrity"

def replaceSteps (script : Script) (done : List Recovered) : Script :=
  { script with
    steps := done.foldl (fun steps r => steps.set r.outcome.index r.step) script.steps }

def summarize (e : Engine) (script : Script) (done : List Recovered) (cancelled : Bool) : Report :=
  let found := total (done.map (·.outcome.foundIssues.length))
  let resolved := total (done.map (·.outcome.resolvedIssues))
  let applied := applied done
  let remaining := done.flatMap e.unresolved
  { foundIssues := found
    resolvedIssues := resolved
    appliedStrategies := applied
    remainingIssues := remaining
    confidenceScore := confidenceScore found resolved applied.length
    recommendations := recommendations remaining applied found
    stepOutcomes := done.map (·.outcome)
    cancelled
    recoveredScript := replaceSteps script done
    evaluatedAt := e.now }

/-- Recover a script. Before each failing step `cancelled` is asked whether to go on. -/
def run (e : Engine) (cancelled : Progress → Bool) (script : Script) : Report × List Query :=
  let script := script.restore
  let failing := e.contexts script (e.survey script)
  if failing.isEmpty then (.clean script e.now, [])
  else
    let (done, stopped) := e.recoverSteps cancelled ⟨0, []⟩ failing
    (e.summarize script done stopped, done.flatMap (·.queries))

def recover (e : Engine) (script : Script) : Report := (e.run (fun _ => false) script).1

end Engine

end Replay.Recovery
