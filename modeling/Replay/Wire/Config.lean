import Replay.Config.Basic
import Replay.Wire.Record
set_option autoImplicit false

namespace Replay

open Wire

namespace Limits

def toJson (l : Limits) : Json :=
  .object (put "min_content_len" (.nat l.minContentLength) ++
    put "min_size_bytes" (.nat l.minSizeBytes) ++ put "max_size_bytes" (.nat l.maxSizeBytes) ++
    put "max_future_skew_secs" (.nat l.maxFutureSkewSecs) ++
    put "minor_pass_ratio" (.number (.real l.minorPassRatio)))

def fieldNames : List String :=
  ["min_content_len", "min_size_bytes", "max_size_bytes", "max_future_skew_secs", "minor_pass_ratio"]

def ofJson? (j : Json) : Option Limits := do
  let m ← fields? fieldNames j
  let unset : Limits := {}
  let minContentLength ← defaulted m "min_content_len" unset.minContentLength readNat64
  let minSizeBytes ← defaulted m "min_size_bytes" unset.minSizeBytes readNat64
  let maxSizeBytes ← defaulted m "max_size_bytes" unset.maxSizeBytes readNat64
  let maxFutureSkewSecs ← defaulted m "max_future_skew_secs" unset.maxFutureSkewSecs readNat64
  let minorPassRatio ← defaulted m "minor_pass_ratio" unset.minorPassRatio readFloat
  return { minContentLength, minSizeBytes, maxSizeBytes, maxFutureSkewSecs, minorPassRatio }

end Limits

namespace RecoverySettings

def toJson (r : RecoverySettings) : Json :=
  .object (put "lookup_timeout_ms" (.nat r.lookupTimeoutMs) ++
    put "allow_regeneration" (.bool r.allowRegeneration))

def fieldNames : List String := ["lookup_timeout_ms", "allow_regeneration"]

def ofJson? (j : Json) : Option RecoverySettings := do
  let m ← fields? fieldNames j
  let unset : RecoverySettings := {}
  let lookupTimeoutMs ← defaulted m "lookup_timeout_ms" unset.lookupTimeoutMs readNat64
  let allowRegeneration ← defaulted m "allow_regeneration" unset.allowRegeneration readBool
  return { lookupTimeoutMs, allowRegeneration }

end RecoverySettings

namespace CacheSettings

def toJson (c : CacheSettings) : Json := .object (put "max_age_secs" (.nat c.maxAgeSecs))

def fieldNames : List String := ["max_age_secs"]

def ofJson? (j : Json) : Option CacheSettings := do
  let m ← fields? fieldNames j
  let maxAgeSecs ← defaulted m "max_age_secs" ({} : CacheSettings).maxAgeSecs readNat64
  return { maxAgeSecs }

end CacheSettings

namespace Config

def toJson (c : Config) : Json :=
  .object (put "validation" c.validation.toJson ++ put "recovery" c.recovery.toJson ++
    put "cache" c.cache.toJson)

def ofJson? (j : Json) : Option Config := do
  let m ← fields? ["validation", "recovery", "cache"] j
  let validation ← defaulted m "validation" {} Limits.ofJson?
  let recovery ← defaulted m "recovery" {} RecoverySettings.ofJson?
  let cache ← defaulted m "cache" {} CacheSettings.ofJson?
  return { validation, recovery, cache }

end Config

end Replay
