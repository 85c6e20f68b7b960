import Replay.Snapshot
import Replay.Wire.Record
import Replay.Xml.Document
set_option autoImplicit false

namespace Replay

open Wire

def StrategyId.toJson (s : StrategyId) : Json := .string s.name

def StrategyId.ofJson? : Json → Option StrategyId := readName StrategyId.all StrategyId.name

namespace ScreenSize

def toJson (s : ScreenSize) : Json :=
  .object (put "width" (.nat s.width) ++ put "height" (.nat s.height))

def ofJson? (j : Json) : Option ScreenSize := do
  let m ← fields? ["width", "height"] j
  let width ← required m "width" readNat32
  let height ← required m "height" readNat32
  return { width, height }

end ScreenSize

namespace Device

def toJson (d : Device) : Json :=
  .object (put "deviceId" (.string d.id) ++ put "deviceName" (.string d.name) ++
    put "appPackage" (.string d.appPackage) ++ put "activityName" (.string d.activityName) ++
    putSome "screen" ScreenSize.toJson d.screen)

def ofJson? (j : Json) : Option Device := do
  let m ← fields? ["deviceId", "deviceName", "appPackage", "activityName", "screen"] j
  let id ← defaulted m "deviceId" "" readString
  let name ← defaulted m "deviceName" "" readString
  let appPackage ← defaulted m "appPackage" "" readString
  let activityName ← defaulted m "activityName" "" readString
  let screen ← optional m "screen" ScreenSize.ofJson?
  return { id, name, appPackage, activityName, screen }

end Device

namespace Page

def toJson (p : Page) : Json :=
  .object (put "title" (.string p.title) ++ put "pageType" (.string p.kind) ++
    put "elementCount" (.nat p.elementCount) ++ putSome "appVersion" .string p.appVersion)

def ofJson? (j : Json) : Option Page := do
  let m ← fields? ["title", "pageType", "elementCount", "appVersion"] j
  let title ← defaulted m "title" "" readString
  let kind ← defaulted m "pageType" "" readString
  let elementCount ← defaulted m "elementCount" 0 readNat64
  let appVersion ← optional m "appVersion" readString
  return { title, kind, elementCount, appVersion }

end Page

namespace Provenance

def toJson (p : Provenance) : Json :=
  .object (put "strategy" p.strategy.toJson ++ put "repairedAt" (writeInstant p.repairedAt))

def ofJson? (j : Json) : Option Provenance := do
  let m ← fields? ["strategy", "repairedAt"] j
  let strategy ← required m "strategy" StrategyId.ofJson?
  let repairedAt ← required m "repairedAt" readInstant
  return { strategy, repairedAt }

end Provenance

namespace ContentHash

def toJson (h : ContentHash) : Json := .string h.text

def ofJson? (j : Json) : Option ContentHash := (readString j).map ContentHash.ofText

end ContentHash

namespace Snapshot

/-- An empty content, an empty hash and a genuine capture are left unsaid. -/
def toJson (s : Snapshot) : Json :=
  .object (putIf s.hasContent "content" (.string s.content) ++
    putIf (!s.hash.isEmpty) "hash" s.hash.toJson ++
    putSome "capturedAt" writeInstant s.capturedAt ++ put "device" s.device.toJson ++
    put "page" s.page.toJson ++ putIf s.synthetic "synthetic" (.bool true) ++
    putSome "repair" Provenance.toJson s.repair)

def ofJson? (j : Json) : Option Snapshot := do
  let m ← fields? ["content", "hash", "capturedAt", "device", "page", "synthetic", "repair"] j
  let content ← defaulted m "content" "" readString
  let hash ← defaulted m "hash" {} ContentHash.ofJson?
  let capturedAt ← optional m "capturedAt" readInstant
  let device ← defaulted m "device" {} Device.ofJson?
  let page ← defaulted m "page" {} Page.ofJson?
  let synthetic ← defaulted m "synthetic" false readBool
  let repair ← optional m "repair" Provenance.ofJson?
  return { content, hash, capturedAt, device, page, synthetic, repair }

end Snapshot

namespace Xml.Summary

def toJson (e : Summary) : Json :=
  .object (put "path" (.string e.path) ++ putSome "className" .string e.className ++
    putSome "resourceId" .string e.resourceId ++ putSome "text" .string e.text ++
    putSome "contentDesc" .string e.contentDesc ++ putSome "bounds" writeRect e.bounds ++
    put "clickable" (.bool e.clickable))

def ofJson? (j : Json) : Option Summary := do
  let m ← fields?
    ["path", "className", "resourceId", "text", "contentDesc", "bounds", "clickable"] j
  let path ← required m "path" readString
  let className ← optional m "className" readString
  let resourceId ← optional m "resourceId" readString
  let text ← optional m "text" readString
  let contentDesc ← optional m "contentDesc" readString
  let bounds ← optional m "bounds" readRect
  let clickable ← required m "clickable" readBool
  return { path, className, resourceId, text, contentDesc, bounds, clickable }

end Xml.Summary

end Replay
