import Replay.Ordered
import Replay.Total
set_option autoImplicit false

namespace Replay

inductive IssueCode where
  | invalidScriptFormat
  | missingXmlSnapshot
  | missingLocator
  | missingXmlContent
  | invalidXmlFormat
  | xmlTooSmall
  | xmlTooLarge
  | invalidXmlStructure
  | missingDeviceInfo
  | missingPageInfo
  | missingTimestamp
  deriving DecidableEq, Repr

namespace IssueCode

def all : List IssueCode :=
  [invalidScriptFormat, missingXmlSnapshot, missingLocator, missingXmlContent, invalidXmlFormat,
    xmlTooSmall, xmlTooLarge, invalidXmlStructure, missingDeviceInfo, missingPageInfo,
    missingTimestamp]

def name : IssueCode → String
  | invalidScriptFormat => "INVALID_SCRIPT_FORMAT"
  | missingXmlSnapshot => "MISSING_XML_SNAPSHOT"
  | missingLocator => "MISSING_LOCATOR"
  | missingXmlContent => "MISSING_XML_CONTENT"
  | invalidXmlFormat => "INVALID_XML_FORMAT"
  | xmlTooSmall => "XML_TOO_SMALL"
  | xmlTooLarge => "XML_TOO_LARGE"
  | invalidXmlStructure => "INVALID_XML_STRUCTURE"
  | missingDeviceInfo => "MISSING_DEVICE_INFO"
  | missingPageInfo => "MISSING_PAGE_INFO"
  | missingTimestamp => "MISSING_TIMESTAMP"

inductive Category where
  | structural
  | content
  | metadata
  deriving DecidableEq, Repr

def Category.name : Category → String
  | structural => "structural"
  | content => "content"
  | metadata => "metadata"

def category : IssueCode → Category
  | invalidScriptFormat | missingXmlSnapshot | missingLocator => .structural
  | missingXmlContent | invalidXmlFormat | xmlTooSmall | xmlTooLarge | invalidXmlStructure =>
    .content
  | missingDeviceInfo | missingPageInfo | missingTimestamp => .metadata

end IssueCode

inductive IssueSeverity where
  | info
  | warning
  | error
  deriving DecidableEq, Repr

namespace IssueSeverity

def all : List IssueSeverity := [info, warning, error]

def name : IssueSeverity → String
  | info => "info"
  | warning => "warning"
  | error => "error"

end IssueSeverity

structure Issue where
  code : IssueCode
  message : String
  severity : IssueSeverity
  suggestion : Option String := none
  deriving DecidableEq, Repr

inductive Check where
  | content
  | format
  | device
  | page
  | timestamp
  | size
  | structured
  deriving DecidableEq, Repr

namespace Check

def all : List Check := [content, format, device, page, timestamp, size, structured]

def name : Check → String
  | content => "content"
  | format => "format"
  | device => "device"
  | page => "page"
  | timestamp => "timestamp"
  | size => "size"
  | structured => "structure"

def rank (c : Check) : Nat := all.idxOf c

instance : LT Check := ⟨fun a b => a.rank < b.rank⟩

instance : DecidableLT Check := fun a b => inferInstanceAs (Decidable (a.rank < b.rank))

def weight : Check → Nat
  | content | format => 25
  | device | size | structured => 15
  | page => 10
  | timestamp => 5

def totalWeight : Nat := total (all.map weight)

def mustHave : Check → Bool
  | content | format => true
  | _ => false

def isMajor : Check → Bool
  | size | structured => true
  | _ => false

end Check

inductive Severity where
  | passed
  | minor
  | major
  | critical
  deriving DecidableEq, Repr

namespace Severity

def all : List Severity := [passed, minor, major, critical]

def name : Severity → String
  | passed => "passed"
  | minor => "minor"
  | major => "major"
  | critical => "critical"

/-- Higher is worse. -/
def rank : Severity → Nat
  | passed => 0
  | minor => 1
  | major => 2
  | critical => 3

end Severity

abbrev Checks := Ordered.Map Check Bool

structure SnapshotReport where
  checks : Checks
  issues : List Issue
  severity : Severity
  score : Nat
  deriving DecidableEq, Repr

namespace SnapshotReport

def isValid (r : SnapshotReport) : Bool := r.severity == .passed || r.severity == .minor

def passed (r : SnapshotReport) (c : Check) : Bool := (Ordered.get? c r.checks).getD false

def failed (r : SnapshotReport) : List Check := Check.all.filter (!r.passed ·)

end SnapshotReport

structure StepReport where
  index : Nat
  id : String
  isValid : Bool
  snapshot : Option SnapshotReport
  issues : List Issue
  deriving DecidableEq, Repr

namespace StepReport

def hasDevice (r : StepReport) : Bool := r.snapshot.any (·.passed .device)

def hasIssue (r : StepReport) (code : IssueCode) : Bool := r.issues.any (·.code == code)

end StepReport

structure ScriptReport where
  isValid : Bool
  totalSteps : Nat
  validSteps : Nat
  steps : List StepReport
  issues : List Issue
  warnings : List String
  compatibilityScore : Nat
  recommendations : List String
  deriving DecidableEq, Repr

structure QuickReport where
  hasSnapshot : Bool
  isValid : Bool
  issues : List String
  deriving DecidableEq, Repr

end Replay
