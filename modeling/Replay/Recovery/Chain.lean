import Replay.Config.Basic
import Replay.Recovery.Strategy
set_option autoImplicit false

namespace Replay.Recovery

inductive Trigger where
  | failure (kind : FailureKind)
  | issue (code : IssueCode)
  deriving DecidableEq, Repr

structure Chain where
  links : List (Trigger × Strategy)
  fallback : Strategy

namespace Chain

/-- For a missing snapshot: lookup, then regeneration. For a corrupted one: repair and lookup if it
is malformed, lookup if it is too small, regeneration if its structure is wrong. For another device:
adaptation. -/
def standard (sources : List Source) (allowRegeneration : Bool) : Chain where
  links :=
    let lookup := Strategy.cacheLookup sources
    let regenerate (trigger : Trigger) : List (Trigger × Strategy) :=
      if allowRegeneration then [(trigger, Strategy.regeneration)] else []
    [(.failure .missing, lookup)] ++ regenerate (.failure .missing) ++
      [(.issue .invalidXmlFormat, .xmlRepair), (.issue .invalidXmlFormat, lookup),
        (.issue .xmlTooSmall, lookup)] ++ regenerate (.issue .invalidXmlStructure) ++
      [(.failure .deviceIncompatible, .deviceAdaptation)]
  fallback := .manualGuidance

def linkedTo (c : Chain) (t : Trigger) : List Strategy :=
  (c.links.filter fun (trigger, _) => trigger == t).map Prod.snd

def triggers (failure : FailureKind) (issues : List Issue) : List Trigger :=
  match failure with
  | .corrupted => issues.map fun i => .issue i.code
  | kind => [.failure kind]

def addNew (plan : List Strategy) (s : Strategy) : List Strategy :=
  if plan.any fun p => p.id == s.id then plan else plan ++ [s]

/-- The strategies to try, in order, each id once. -/
def plan (c : Chain) (failure : FailureKind) (issues : List Issue) : List Strategy :=
  ((triggers failure issues).flatMap c.linkedTo).foldl addNew []

end Chain

end Replay.Recovery
