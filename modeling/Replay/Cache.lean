import Replay.Recovery.Basic
import Replay.Total
import Replay.Xml.Document
set_option autoImplicit false

/-!
A store of captured snapshots under ids, with links from steps to ids. Entries that were swept leave
their links behind; such a link leads nowhere.
-/

namespace Replay

structure CacheEntry where
  id : String := ""
  snapshot : Snapshot
  elements : List Xml.Summary := []
  storedAt : Instant
  deriving DecidableEq, Repr

namespace CacheEntry

def withElements (e : CacheEntry) : CacheEntry :=
  { e with elements := Xml.Document.extract e.snapshot.content }

def age (e : CacheEntry) : Instant := e.snapshot.capturedAt.getD e.storedAt

def shows (e : CacheEntry) (app title : String) : Bool :=
  e.snapshot.hasContent && e.snapshot.device.appPackage == app && e.snapshot.page.title == title

/-- Older than, or of the same age and with a smaller id. -/
def before (a b : CacheEntry) : Bool :=
  if a.age = b.age then a.id < b.id else a.age ≤ b.age

end CacheEntry

structure StepLink where
  step : String
  entry : String
  context : Option String := none
  linkedAt : Instant
  deriving DecidableEq, Repr

structure CacheStats where
  entries : Nat
  links : Nat
  totalBytes : Nat
  oldestCapture : Option Instant
  deriving DecidableEq, Repr

structure Cache where
  entries : Ordered.Map String CacheEntry := []
  links : Ordered.Map String StepLink := []
  generated : Nat := 0
  deriving DecidableEq, Repr

namespace Cache

/-- The id for the `n`-th entry without one. -/
abbrev IdSource := Nat → String

def idsAt (now : Instant) (suffix : String) : IdSource := fun n =>
  let millis := now.second * 1000 + now.nano / 1000000
  "snap-" ++ toString millis ++ "-" ++ toString n ++ "-" ++ suffix

/-- Store an entry, under a new id if its own is blank; one with the same id is replaced. -/
def put (ids : IdSource) (e : CacheEntry) (c : Cache) : String × Cache :=
  if Text.isBlankText e.id then
    let id := ids c.generated
    (id, { c with entries := Ordered.insert id { e with id } c.entries
                  generated := c.generated + 1 })
  else (e.id, { c with entries := Ordered.insert e.id e c.entries })

def get? (id : String) (c : Cache) : Option CacheEntry := Ordered.get? id c.entries

def link (l : StepLink) (c : Cache) : Cache :=
  { c with links := Ordered.insert l.step l c.links }

def isLinked (step : String) (c : Cache) : Bool := (Ordered.get? step c.links).isSome

def unlink (step : String) (c : Cache) : Cache := { c with links := Ordered.erase step c.links }

def resolve? (step : String) (c : Cache) : Option (CacheEntry × StepLink) := do
  let l ← Ordered.get? step c.links
  let e ← c.get? l.entry
  return (e, l)

def later (found : Option CacheEntry) (e : CacheEntry) : Option CacheEntry :=
  match found with
  | some f => if e.before f then some f else some e
  | none => some e

/-- The youngest entry with content for a page of an app. -/
def findByPage (app title : String) (c : Cache) : Option CacheEntry :=
  ((c.entries.map Prod.snd).filter fun e => e.shows app title).foldl later none

def sweepBefore (cutoff : Instant) (c : Cache) : Cache :=
  { c with entries := c.entries.filter fun (_, e) => cutoff ≤ e.age }

/-- Remove the entries older than `maxAge` seconds, with a limit for ages that no count of
milliseconds holds. A cutoff before the start of the calendar removes nothing. -/
def sweep (now : Instant) (maxAge : Nat) (c : Cache) : Cache :=
  let age := if maxAge ≤ 0x8000000000000000 / 1000 then maxAge else 52 * 1000 * 7 * 24 * 60 * 60
  match now.addSeconds? (-(age : Int)) with
  | some cutoff => c.sweepBefore cutoff
  | none => c

def earlier (found : Option Instant) (t : Instant) : Option Instant :=
  match found with
  | some f => if f ≤ t then some f else some t
  | none => some t

def stats (c : Cache) : CacheStats where
  entries := c.entries.length
  links := c.links.length
  totalBytes := total (c.entries.map fun (_, e) => e.snapshot.size)
  oldestCapture := (c.entries.map fun (_, e) => e.age).foldl earlier none

def clear (c : Cache) : Cache := { c with entries := [], links := [] }

def toSource (c : Cache) : Recovery.Source :=
  ⟨"cache", fun _ key => (c.findByPage key.appPackage key.pageTitle).map (·.snapshot)⟩

end Cache

end Replay
