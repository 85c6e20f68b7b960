import Replay.Cache
set_option autoImplicit false

namespace Replay.Cache

inductive Call where
  | put (e : CacheEntry)
  | get (id : String)
  | link (l : StepLink)
  | unlink (step : String)
  | resolve (step : String)
  | findByPage (app title : String)
  | sweepBefore (cutoff : Instant)
  | stats
  | clear
  deriving DecidableEq, Repr

inductive Answer where
  | done
  | stored (id : String)
  | entry (found : Option CacheEntry)
  | resolved (found : Option (CacheEntry × StepLink))
  | unlinked (linked : Bool)
  | removed (count : Nat)
  | stats (s : CacheStats)
  deriving DecidableEq, Repr

def Call.isRead : Call → Bool
  | get _ | resolve _ | findByPage _ _ | stats => true
  | put _ | link _ | unlink _ | sweepBefore _ | clear => false

def answer (ids : IdSource) (c : Cache) : Call → Answer × Cache
  | .put e =>
    let (id, after) := c |>.put ids e
    (.stored id, after)
  | .get id => (.entry (c.get? id), c)
  | .link l => (.done, c.link l)
  | .unlink step => (.unlinked (c.isLinked step), c.unlink step)
  | .resolve step => (.resolved (c.resolve? step), c)
  | .findByPage app title => (.entry (c.findByPage app title), c)
  | .sweepBefore cutoff =>
    let after := c.sweepBefore cutoff
    (.removed (c.entries.length - after.entries.length), after)
  | .stats => (.stats c.stats, c)
  | .clear => (.done, c.clear)

end Replay.Cache
