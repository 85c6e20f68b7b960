import Replay.Recovery.Source
import Replay.Recovery.Synthetic
import Replay.Xml.Rescale
set_option autoImplicit false

namespace Replay.Recovery.Strategy

def repairResult (s : Snapshot) (now : Instant) : Result :=
  let outcome := Xml.repair s.content
  match Xml.Document.parse outcome.content with
  | .error e =>
    (Result.failure .xmlRepair ("xml repair failed: " ++ e.message)).recommend
      "capture a new snapshot of the page"
  | .ok _ =>
    if outcome.changed then
      let repaired := (s.withContent outcome.content).repairedBy .xmlRepair now
      outcome.applied.foldl (fun r step => r.warn ("repair: " ++ step.describe))
        ((Result.recovery .xmlRepair repaired).recommend
          "xml format repaired; check that the content is complete")
    else .failure .xmlRepair "xml parses already; no repair applied"

def xmlRepair : Strategy where
  id := .xmlRepair
  attempt c :=
    match c.capture with
    | none =>
      ⟨(Result.failure .xmlRepair "xml content is missing; nothing to repair").recommend
        "capture a new snapshot of the page", []⟩
    | some s => ⟨repairResult s c.now, []⟩

def borrowed (source : String) (s : Snapshot) (now : Instant) : Result :=
  ((Result.recovery .cacheLookup { s.repairedBy .cacheLookup now with synthetic := false }).warn
    ("used a snapshot from " ++ source ++ "; it may differ from the original environment")).recommend
    "verify the borrowed snapshot matches the current scenario"

def findSnapshot (shared : List Source) (c : Context) (key : LookupKey) :
    Option (String × Snapshot) × List Query :=
  match Source.firstAnswer c.index key c.localSources with
  | some answer => (some answer, [])
  | none => Source.ask c.index key 0 shared

def cacheLookup (shared : List Source) : Strategy where
  id := .cacheLookup
  attempt c :=
    match LookupKey.ofStep c.step with
    | none =>
      ⟨(Result.failure .cacheLookup "step has no page identity to look up").recommend
        "record the page title with each snapshot", []⟩
    | some key =>
      match findSnapshot shared c key with
      | (some (source, s), queries) => ⟨borrowed source s c.now, queries⟩
      | (none, queries) =>
        ⟨(Result.failure .cacheLookup "no matching snapshot found").recommend
          "provide a snapshot manually or try another strategy", queries⟩

/-- The target device; what it does not say of the app is taken from the capture. -/
def adaptedDevice (target captured : Device) : Device :=
  { target with
    appPackage := if target.appPackage.isEmpty then captured.appPackage else target.appPackage
    activityName :=
      if target.activityName.isEmpty then captured.activityName else target.activityName }

def factor (old new : Nat) : Float := new.toFloat / old.toFloat

/-- The content for another screen, where both sizes are known; whether they are. -/
def adaptedContent (s : Snapshot) (target : Device) : String × Bool :=
  match s.device.screen, target.screen with
  | some old, some new =>
    if old ≠ new ∧ 0 < old.width ∧ 0 < old.height then
      let change := Rect.scaled (factor old.width new.width) (factor old.height new.height)
      (Xml.Rescale.mapBounds change s.content, true)
    else (s.content, true)
  | _, _ => (s.content, false)

def adaptResult (s : Snapshot) (target : Device) (now : Instant) : Result :=
  let (content, sized) := adaptedContent s target
  let adapted := { (s.withContent content).repairedBy .deviceAdaptation now with
    device := adaptedDevice target s.device }
  let result := ((Result.recovery .deviceAdaptation adapted).warn
    "snapshot adapted to the target device; verify on the device").recommend
    "run the script on the target device to confirm"
  if sized then result else result.warn "screen size unknown; bounds were not rescaled"

def deviceAdaptation : Strategy where
  id := .deviceAdaptation
  attempt c :=
    match c.capture, c.target with
    | some s, some target => ⟨adaptResult s target c.now, []⟩
    | _, _ =>
      ⟨(Result.failure .deviceAdaptation "xml content or target device is missing").recommend
        "provide full target device information", []⟩

def generated (step : Step) (now : Instant) : Snapshot :=
  let key := LookupKey.ofStep step
  let app := (key.map (·.appPackage)).filter (!·.isEmpty) |>.getD "com.unknown.app"
  let title := (key.map (·.pageTitle)).getD "Generated"
  let screen := (step.snapshot.bind (·.device.screen)).getD defaultScreen
  let page : Page := { title, kind := "synthetic", elementCount := 2 }
  let activityName := (step.snapshot.map (·.device.activityName)).getD ""
  let device : Device := { id := "synthetic", name := "Synthetic", appPackage := app, activityName }
  let content := syntheticHierarchy step app screen
  { (Snapshot.capture content device page now).repairedBy .xmlRegeneration now with
    synthetic := true }

def regeneration : Strategy where
  id := .xmlRegeneration
  attempt c :=
    if c.step.locator.isEmpty then
      ⟨(Result.failure .xmlRegeneration "step has no locator to regenerate from").recommend
        "re-record the step on a real device", []⟩
    else
      ⟨(((Result.recovery .xmlRegeneration (generated c.step c.now)).warn
        "used a synthetic xml hierarchy; replay may be limited").recommend
        "capture a real snapshot in the target environment").recommend
        "test the synthetic snapshot before relying on it", []⟩

def issueAdvice (i : Issue) : List String :=
  ("- " ++ i.code.name ++ ": " ++ i.message) ::
    (i.suggestion.map ("  suggestion: " ++ ·)).toList

def guidance (c : Context) : List String :=
  ["step " ++ toString (c.index + 1) ++ " (" ++ c.step.label ++ ") needs manual handling:",
    "1. capture a new snapshot on the same app page",
    "2. check the device connection and adb permissions",
    "3. make sure the target app is open",
    "4. confirm the page state matches what the script expects"] ++
  if c.issues.isEmpty then [] else "issues:" :: c.issues.flatMap issueAdvice

def manualGuidance : Strategy where
  id := .fallbackManual
  attempt c :=
    ⟨(guidance c).foldl Result.recommend (.failure .fallbackManual
      "automatic recovery failed; manual intervention required"), []⟩

end Replay.Recovery.Strategy
