import Replay.Recovery.Basic
set_option autoImplicit false

namespace Replay.Recovery

def nonBlank (s : String) : Option String := some (Text.trimmed s) |>.filter (!·.isEmpty)

def textParam (step : Step) (key : String) : Option String :=
  match Ordered.get? key step.params with
  | some (.string s) => nonBlank s
  | _ => none

namespace LookupKey

/-- The page of a step, from its snapshot or else from its parameters; there is none without a
title. -/
def ofStep (step : Step) : Option LookupKey :=
  let title := (step.snapshot.bind fun s => nonBlank s.page.title) <|> textParam step "pageTitle"
  let app := (step.snapshot.bind fun s => nonBlank s.device.appPackage) <|>
    textParam step "appPackage"
  title.map fun pageTitle => ⟨app.getD "", pageTitle⟩

def fits (k : LookupKey) (s : Snapshot) : Bool :=
  s.device.appPackage == k.appPackage && s.page.title == k.pageTitle

end LookupKey

def siblings (script : Script) (reports : List StepReport) : List Snapshot :=
  (reports.filter fun r => r.snapshot.any (·.isValid)).filterMap fun r =>
    (script.steps[r.index]?.bind (·.snapshot)).filter (·.hasContent)

namespace Source

def ofSiblings (snapshots : List Snapshot) : Source :=
  ⟨"script", fun _ key => snapshots.find? key.fits⟩

def firstAnswer (turn : Nat) (key : LookupKey) (sources : List Source) : Option (String × Snapshot) :=
  sources.findSome? fun s => (s.lookup turn key).map fun found => (s.name, found)

/-- The first answer among shared sources, which are numbered from `n` on, with the queries made up
to it. -/
def ask (turn : Nat) (key : LookupKey) (n : Nat) :
    List Source → Option (String × Snapshot) × List Query
  | [] => (none, [])
  | s :: rest =>
    match s.lookup turn key with
    | some found => (some (s.name, found), [⟨n, key⟩])
    | none =>
      let (answer, queries) := ask turn key (n + 1) rest
      (answer, ⟨n, key⟩ :: queries)

end Source

end Replay.Recovery
