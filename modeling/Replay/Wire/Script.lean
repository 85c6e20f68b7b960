import Replay.Script
import Replay.Wire.Snapshot
set_option autoImplicit false

namespace Replay

open Wire

namespace Locator

def toJson (l : Locator) : Json :=
  .object (putSome "xpath" .string l.xpathField ++ putSome "resourceId" .string l.resourceIdField ++
    putSome "text" .string l.textField ++ putSome "contentDesc" .string l.contentDescField ++
    putSome "className" .string l.classNameField ++ putSome "bounds" writeRect l.bounds)

def ofJson? (j : Json) : Option Locator := do
  let m ← fields? ["xpath", "resourceId", "text", "contentDesc", "className", "bounds"] j
  let xpathField ← optional m "xpath" readString
  let resourceIdField ← optional m "resourceId" readString
  let textField ← optional m "text" readString
  let contentDescField ← optional m "contentDesc" readString
  let classNameField ← optional m "className" readString
  let bounds ← optional m "bounds" readRect
  return { xpathField, resourceIdField, textField, contentDescField, classNameField, bounds }

end Locator

def readParams : Json → Option Params
  | .object members => some (Ordered.ofList members)
  | _ => none

namespace Step

def toJson (s : Step) : Json :=
  .object (put "id" (.string s.id) ++ putSome "name" .string s.name ++
    putSome "action" .string s.action ++ putIf (!s.params.isEmpty) "params" (.object s.params) ++
    put "locator" s.locator.toJson ++ putSome "snapshot" Snapshot.toJson s.snapshot)

def ofJson? (j : Json) : Option Step := do
  let m ← fields? ["id", "name", "action", "params", "locator", "snapshot"] j
  let id ← required m "id" readString
  let name ← optional m "name" readString
  let action ← optional m "action" readString
  let params ← defaulted m "params" [] readParams
  let locator ← defaulted m "locator" {} Locator.ofJson?
  let snapshot ← optional m "snapshot" Snapshot.ofJson?
  return { id, name, action, params, locator, snapshot }

end Step

namespace PoolEntry

def toJson (e : PoolEntry) : Json :=
  .object (put "content" (.string e.content) ++ putSome "capturedAt" writeInstant e.capturedAt ++
    put "usageCount" (.nat e.usageCount))

def ofJson? (j : Json) : Option PoolEntry := do
  let m ← fields? ["content", "capturedAt", "usageCount"] j
  let content ← required m "content" readString
  let capturedAt ← optional m "capturedAt" readInstant
  let usageCount ← required m "usageCount" readNat32
  return { content, capturedAt, usageCount }

end PoolEntry

namespace Pool

def toJson (p : Pool) : Json := .object (p.map fun (hash, e) => (hash.text, e.toJson))

/-- Keys that differ in letter case only are one key; the last of them in order counts. -/
def ofJson? : Json → Option Pool
  | .object members => do
    let entries ← (Ordered.ofList members).mapM fun (key, j) => do
      return (ContentHash.ofText key, ← PoolEntry.ofJson? j)
    return Ordered.ofList entries
  | _ => none

end Pool

namespace Metadata

def names : List String := ["platform", "author", "createdAt"]

def toJson (m : Metadata) : Json :=
  .object (putSome "platform" .string m.platform ++ putSome "author" .string m.author ++
    putSome "createdAt" writeInstant m.createdAt ++ m.extra)

/-- All members that have no meaning of their own are kept. -/
def ofJson? : Json → Option Metadata
  | .object members => do
    let platform ← optional members "platform" readString
    let author ← optional members "author" readString
    let createdAt ← optional members "createdAt" readInstant
    let extra := Ordered.ofList (members.filter fun (key, _) => !names.contains key)
    return { platform, author, createdAt, extra }
  | _ => none

end Metadata

namespace Script

def toJson (s : Script) : Json :=
  .object (put "name" (.string s.name) ++ putSome "version" .string s.version ++
    put "steps" (writeList Step.toJson s.steps) ++ putSome "snapshotPool" Pool.toJson s.pool ++
    putSome "metadata" Metadata.toJson s.metadata)

def ofJson? (j : Json) : Option Script := do
  let m ← fields? ["name", "version", "steps", "snapshotPool", "metadata"] j
  let name ← defaulted m "name" "" readString
  let version ← optional m "version" readString
  let steps ← required m "steps" (readList Step.ofJson?)
  let pool ← optional m "snapshotPool" Pool.ofJson?
  let metadata ← optional m "metadata" Metadata.ofJson?
  return { name, version, steps, pool, metadata }

end Script

end Replay
