import Replay.Script
import Replay.Validation.Basic
set_option autoImplicit false

/-!
The vocabulary of recovery: why a step fails, what a strategy may look at, what an attempt yields,
and the record of a whole pass. Sources of snapshots are functions of a turn and a lookup key; an
attempt lists the queries that it made, so that a pass is a value.
-/

namespace Replay.Recovery

inductive FailureKind where
  | missing
  | corrupted
  | deviceIncompatible
  deriving DecidableEq, Repr

namespace FailureKind

def all : List FailureKind := [missing, corrupted, deviceIncompatible]

def name : FailureKind → String
  | missing => "missing"
  | corrupted => "corrupted"
  | deviceIncompatible => "device_incompatible"

def title : FailureKind → String
  | missing => "Missing"
  | corrupted => "Corrupted"
  | deviceIncompatible => "DeviceIncompatible"

end FailureKind

structure LookupKey where
  appPackage : String
  pageTitle : String
  deriving DecidableEq, Repr

/-- A place to borrow snapshots from. What it answers to a key may change from the turn of one step,
which is told by its index, to that of another. One that does not answer in time answers nothing. -/
structure Source where
  name : String
  lookup : (turn : Nat) → LookupKey → Option Snapshot

structure Query where
  source : Nat
  key : LookupKey
  deriving DecidableEq, Repr

structure Result where
  success : Bool
  strategy : StrategyId
  recovered : Option Snapshot
  warnings : List String
  recommendations : List String
  deriving DecidableEq, Repr

namespace Result

def recovery (strategy : StrategyId) (s : Snapshot) : Result := ⟨true, strategy, some s, [], []⟩

def failure (strategy : StrategyId) (warning : String) : Result :=
  ⟨false, strategy, none, [warning], []⟩

def warn (r : Result) (warning : String) : Result := { r with warnings := r.warnings ++ [warning] }

def recommend (r : Result) (text : String) : Result :=
  { r with recommendations := r.recommendations ++ [text] }

def reject (r : Result) : Result :=
  { r with success := false }.warn "recovered snapshot made the step worse"

end Result

structure Context where
  index : Nat
  step : Step
  failure : FailureKind
  issues : List Issue
  target : Option Device
  /-- Sources that belong to this pass; they are asked before the shared ones. -/
  localSources : List Source
  now : Instant

def Context.capture (c : Context) : Option Snapshot := c.step.snapshot.filter (·.hasContent)

structure Attempt where
  result : Result
  queries : List Query := []
  deriving DecidableEq, Repr

structure Strategy where
  id : StrategyId
  attempt : Context → Attempt

structure StepOutcome where
  index : Nat
  id : String
  failure : FailureKind
  foundIssues : List Issue
  attempts : List Result
  recoveredBy : Option StrategyId
  resolvedIssues : Nat
  deriving DecidableEq, Repr

structure Report where
  foundIssues : Nat
  resolvedIssues : Nat
  /-- The strategies that succeeded, in the order of their first success. -/
  appliedStrategies : List StrategyId
  remainingIssues : List String
  confidenceScore : Nat
  recommendations : List String
  stepOutcomes : List StepOutcome
  /-- The pass ended early; later steps are unchanged. -/
  cancelled : Bool
  recoveredScript : Script
  evaluatedAt : Instant
  deriving BEq, Repr

namespace Report

def clean (script : Script) (now : Instant) : Report where
  foundIssues := 0
  resolvedIssues := 0
  appliedStrategies := []
  remainingIssues := []
  confidenceScore := 100
  recommendations := []
  stepOutcomes := []
  cancelled := false
  recoveredScript := script
  evaluatedAt := now

def used (r : Report) (id : StrategyId) : Bool := r.appliedStrategies.contains id

end Report

end Replay.Recovery
