import Replay.Json.Basic
import Replay.Rect
import Replay.Snapshot
set_option autoImplicit false

/-!
Recorded scripts: steps in order, each with an action, the locator of the element it acts on and
the snapshot of its page, and optionally a pool of contents that several steps share.
-/

namespace Replay

structure Locator where
  xpathField : Option String := none
  resourceIdField : Option String := none
  textField : Option String := none
  contentDescField : Option String := none
  classNameField : Option String := none
  bounds : Option Rect := none
  deriving DecidableEq, Repr, Inhabited

namespace Locator

def present (field : Option String) : Option String :=
  (field.map Text.trimmed).filter (!·.isEmpty)

def xpath (l : Locator) : Option String := present l.xpathField

def resourceId (l : Locator) : Option String := present l.resourceIdField

def text (l : Locator) : Option String := present l.textField

def contentDesc (l : Locator) : Option String := present l.contentDescField

def className (l : Locator) : Option String := present l.classNameField

def isEmpty (l : Locator) : Bool :=
  l.xpath.isNone && l.resourceId.isNone && l.text.isNone && l.contentDesc.isNone &&
    l.className.isNone && l.bounds.isNone

end Locator

abbrev Params := Ordered.Map String Json

structure Step where
  id : String := ""
  name : Option String := none
  action : Option String := none
  params : Params := []
  locator : Locator := {}
  snapshot : Option Snapshot := none
  deriving BEq, Repr, Inhabited

def Step.label (s : Step) : String := s.name.getD s.id

structure PoolEntry where
  content : String
  capturedAt : Option Instant := none
  usageCount : Nat
  deriving DecidableEq, Repr

abbrev Pool := Ordered.Map ContentHash PoolEntry

/-- Free-form data about a script; only the platform has a meaning. -/
structure Metadata where
  platform : Option String := none
  author : Option String := none
  createdAt : Option Instant := none
  extra : Ordered.Map String Json := []
  deriving BEq, Repr, Inhabited

structure Script where
  name : String := ""
  version : Option String := none
  steps : List Step
  pool : Option Pool := none
  metadata : Option Metadata := none
  deriving BEq, Repr, Inhabited

namespace Script

def hasVersion (s : Script) : Bool := s.version.any (!Text.isBlankText ·)

def platform (s : Script) : Option String :=
  (s.metadata.bind (·.platform)).filter (!Text.isBlankText ·)

end Script

end Replay
