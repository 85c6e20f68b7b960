import Replay.Config.Basic
import Replay.Snapshot
import Replay.Validation.Basic
import Replay.Xml.Document
set_option autoImplicit false

/-!
Validation of one snapshot. Each of seven checks passes or fails on its own; a failing check leaves
a finding (`Check.finding`), the passing ones add up to the score, and the failing ones decide the
severity.
-/

namespace Replay

structure Examination where
  limits : Limits
  now : Instant
  snapshot : Snapshot
  document : Option Xml.Document

namespace Examination

def of (limits : Limits) (now : Instant) (s : Snapshot) : Examination :=
  ⟨limits, now, s, Xml.Document.parse? s.content⟩

def size (e : Examination) : Nat := e.snapshot.size

def contentPasses (e : Examination) : Bool :=
  (e.snapshot.content.toList.dropWhile Text.isBlank).head? == some '<' &&
    e.limits.minContentLength ≤ e.size

/-- A capture may lie in the future by no more than the tolerated difference. There is no answer for
a time of capture if the clock is so late that the difference leads out of the calendar. -/
def timestampPasses? (e : Examination) : Option Bool :=
  match e.snapshot.capturedAt with
  | some t => (e.now.addSeconds? e.limits.futureSkew).map fun limit => t ≤ limit
  | none => some false

def looksLikeHierarchy (d : Xml.Document) : Bool :=
  d.elements.any (fun e => e.name == "node" || e.attributes.any (·.key == "class")) &&
    d.elements.any fun e => e.attributes.any (·.key == "bounds")

def passes (e : Examination) : Check → Bool
  | .content => e.contentPasses
  | .format => e.document.any (·.hasHierarchyMarkers)
  | .device => e.snapshot.device.hasIdentity
  | .page => e.snapshot.page.hasIdentity
  | .timestamp => e.timestampPasses?.getD false
  | .size => e.limits.minSizeBytes ≤ e.size && e.size ≤ e.limits.maxSizeBytes
  | .structured => e.document.any looksLikeHierarchy

def sizeFinding (e : Examination) : Option Issue :=
  if 0 < e.size ∧ e.size < e.limits.minSizeBytes then
    some ⟨.xmlTooSmall, s!"xml content is too small ({e.size} bytes) and may be incomplete",
      .warning, some "check that the snapshot captured the whole page"⟩
  else if e.limits.maxSizeBytes < e.size then
    some ⟨.xmlTooLarge, s!"xml content is too large ({e.size / 1024} KB)", .warning,
      some "trim the hierarchy or capture a smaller region"⟩
  else none

def timestampMessage (e : Examination) : String :=
  if e.snapshot.capturedAt.isSome then "capture timestamp lies in the future"
  else "capture timestamp is missing"

def complaint (e : Examination) : Check → Option Issue
  | .content => some ⟨.missingXmlContent, "xml content is missing or empty", .error,
      some "save the page hierarchy when the step is recorded"⟩
  | .format => some ⟨.invalidXmlFormat, "xml is malformed or has no hierarchy element", .error,
      some "check that the snapshot was stored whole and correctly encoded"⟩
  | .device => some ⟨.missingDeviceInfo, "device information is missing", .warning,
      some "record device id and name to improve cross-device replay"⟩
  | .page => some ⟨.missingPageInfo, "page information is missing", .info,
      some "record the page title so the step context is recognisable"⟩
  | .timestamp => some ⟨.missingTimestamp, e.timestampMessage, .info,
      some "record the capture time to track snapshot age"⟩
  | .size => e.sizeFinding
  | .structured => some ⟨.invalidXmlStructure, "xml does not look like an android ui hierarchy",
      .warning, some "capture the snapshot with a ui hierarchy dump"⟩

def finding (e : Examination) (c : Check) : Option Issue :=
  if c = .size then e.sizeFinding else if e.passes c then none else e.complaint c

def score (e : Examination) : Nat :=
  total ((Check.all.filter e.passes).map Check.weight) * 100 / Check.totalWeight

/-- A failing must-have check is critical, a failing major check is major. Otherwise the share of
passing checks tells minor from passed. -/
def severity (e : Examination) : Severity :=
  if Check.all.any fun c => c.mustHave && !e.passes c then .critical
  else if Check.all.any fun c => c.isMajor && !e.passes c then .major
  else if (Check.all.countP e.passes).toFloat < e.limits.minorPassRatio * Check.all.length.toFloat
  then .minor
  else .passed

def report (e : Examination) : SnapshotReport where
  checks := Check.all.map fun c => (c, e.passes c)
  issues := Check.all.filterMap e.finding
  severity := e.severity
  score := e.score

end Examination

/-- The report at any clock. There is none if the check of the time of capture has no answer. -/
def validateSnapshot? (limits : Limits) (now : Instant) (s : Snapshot) : Option SnapshotReport :=
  let e := Examination.of limits now s
  e.timestampPasses?.map fun _ => e.report

/-- The report at a clock that is not within a century of the end of the calendar, which no clock of
a running system is. -/
def validateSnapshot (limits : Limits) (now : Instant) (s : Snapshot) : SnapshotReport :=
  (Examination.of limits now s).report

end Replay
