import Replay.Locator.Resolution
import Replay.Wire.Script
set_option autoImplicit false

namespace Replay.Locator

open Wire

def Tier.toJson (t : Tier) : Json := .string t.name

def Resolved.toJson (r : Resolved) : Json :=
  .object (put "node" (.nat r.node) ++ put "element" r.element.toJson ++
    put "tier" r.tier.toJson ++ put "score" (.number (.real r.score.toFloat)))

end Replay.Locator
