import Replay.Digest
import Replay.Instant.Basic
set_option autoImplicit false

namespace Replay

inductive StrategyId where
  | xmlRepair
  | cacheLookup
  | deviceAdaptation
  | xmlRegeneration
  | fallbackManual
  deriving DecidableEq, Repr

namespace StrategyId

def all : List StrategyId :=
  [xmlRepair, cacheLookup, deviceAdaptation, xmlRegeneration, fallbackManual]

def name : StrategyId → String
  | xmlRepair => "xml-repair"
  | cacheLookup => "cache-lookup"
  | deviceAdaptation => "device-adaptation"
  | xmlRegeneration => "xml-regeneration"
  | fallbackManual => "fallback-manual"

end StrategyId

structure ScreenSize where
  width : Nat
  height : Nat
  deriving DecidableEq, Repr

structure Device where
  id : String := ""
  name : String := ""
  appPackage : String := ""
  activityName : String := ""
  screen : Option ScreenSize := none
  deriving DecidableEq, Repr, Inhabited

def Device.hasIdentity (d : Device) : Bool := !Text.isBlankText d.id && !Text.isBlankText d.name

structure Page where
  title : String := ""
  kind : String := ""
  elementCount : Nat := 0
  appVersion : Option String := none
  deriving DecidableEq, Repr, Inhabited

def Page.hasIdentity (p : Page) : Bool := !Text.isBlankText p.title

structure Provenance where
  strategy : StrategyId
  repairedAt : Instant
  deriving DecidableEq, Repr

/-- A snapshot without content refers to a pooled content by its hash. -/
structure Snapshot where
  content : String := ""
  hash : ContentHash := {}
  capturedAt : Option Instant := none
  device : Device := {}
  page : Page := {}
  /-- The content was generated from a locator; never set on a capture. -/
  synthetic : Bool := false
  repair : Option Provenance := none
  deriving DecidableEq, Repr, Inhabited

namespace Snapshot

def hasContent (s : Snapshot) : Bool := !s.content.isEmpty

def size (s : Snapshot) : Nat := s.content.utf8ByteSize

def withContent (s : Snapshot) (content : String) : Snapshot :=
  { s with content, hash := .ofContent content }

def asReference (s : Snapshot) : Snapshot := { s with content := "" }

def repairedBy (s : Snapshot) (strategy : StrategyId) (now : Instant) : Snapshot :=
  { s with repair := some ⟨strategy, now⟩ }

def capture (content : String) (device : Device) (page : Page) (now : Instant) : Snapshot :=
  { content, hash := .ofContent content, capturedAt := some now, device, page }

end Snapshot

end Replay
