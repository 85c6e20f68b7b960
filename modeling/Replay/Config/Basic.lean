set_option autoImplicit false

namespace Replay

structure Limits where
  /-- A shorter content, in bytes, is no hierarchy. -/
  minContentLength : Nat := 16
  minSizeBytes : Nat := 100
  maxSizeBytes : Nat := 2 * 1024 * 1024
  maxFutureSkewSecs : Nat := 24 * 60 * 60
  minorPassRatio : Float := 0.8
  deriving BEq, Repr

/-- The tolerated clock difference in seconds, a century at most. -/
def Limits.futureSkew (l : Limits) : Nat := min l.maxFutureSkewSecs (100 * 365 * 24 * 60 * 60)

structure RecoverySettings where
  lookupTimeoutMs : Nat := 2000
  allowRegeneration : Bool := true
  deriving DecidableEq, Repr

structure CacheSettings where
  maxAgeSecs : Nat := 7 * 24 * 60 * 60
  deriving DecidableEq, Repr

structure Config where
  validation : Limits := {}
  recovery : RecoverySettings := {}
  cache : CacheSettings := {}
  deriving BEq, Repr

end Replay
