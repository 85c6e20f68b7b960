import Replay.Cache
import Replay.Wire.Snapshot
set_option autoImplicit false

namespace Replay

open Wire

namespace CacheEntry

def toJson (e : CacheEntry) : Json :=
  .object (put "cacheId" (.string e.id) ++ put "snapshot" e.snapshot.toJson ++
    putIf (!e.elements.isEmpty) "elements" (writeList Xml.Summary.toJson e.elements) ++
    put "storedAt" (writeInstant e.storedAt))

def ofJson? (j : Json) : Option CacheEntry := do
  let m ← fields? ["cacheId", "snapshot", "elements", "storedAt"] j
  let id ← defaulted m "cacheId" "" readString
  let snapshot ← required m "snapshot" Snapshot.ofJson?
  let elements ← defaulted m "elements" [] (readList Xml.Summary.ofJson?)
  let storedAt ← required m "storedAt" readInstant
  return { id, snapshot, elements, storedAt }

end CacheEntry

def StepLink.toJson (l : StepLink) : Json :=
  .object (put "stepId" (.string l.step) ++ put "cacheId" (.string l.entry) ++
    putSome "context" .string l.context ++ put "linkedAt" (writeInstant l.linkedAt))

def CacheStats.toJson (s : CacheStats) : Json :=
  .object (put "entries" (.nat s.entries) ++ put "links" (.nat s.links) ++
    put "totalBytes" (.nat s.totalBytes) ++
    put "oldestCapture" (writeOption writeInstant s.oldestCapture))

end Replay
