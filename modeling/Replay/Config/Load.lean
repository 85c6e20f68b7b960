import Replay.Decimal.Plain
import Replay.Toml.Reader
import Replay.Wire.Config
set_option autoImplicit false

/-!
Where settings come from: a TOML text or the defaults, then variables of the environment, then a
check that no snapshot is refused for the settings alone.
-/

namespace Replay.Config

inductive Error where
  | misread
  | notNumber (key raw : String)
  | sizesCrossed (least most : Nat)
  | ratioOutside (ratio : Float)
  | noTimeout

namespace Error

def reason : Error → String
  | misread => "not a settings file"
  | notNumber key raw => key ++ ": invalid value '" ++ raw ++ "'"
  | sizesCrossed least most =>
    "min_size_bytes (" ++ toString least ++ ") exceeds max_size_bytes (" ++ toString most ++ ")"
  | ratioOutside ratio => "minor_pass_ratio must be within 0..=1, got " ++ Decimal.plain ratio
  | noTimeout => "lookup_timeout_ms must be positive"

def message (e : Error) : String :=
  match e with
  | misread => "config parse error: " ++ e.reason
  | _ => "invalid configuration: " ++ e.reason

end Error

abbrev Variables := String → Option String

def sectionFields : String → Option (List String)
  | "validation" => some Limits.fieldNames
  | "recovery" => some RecoverySettings.fieldNames
  | "cache" => some CacheSettings.fieldNames
  | _ => none

/-- Settings as a TOML text may give them: a section can be an array of its fields in order, and
items after the last field do not count. -/
def withoutSurplus : Json → Json
  | .object sections =>
    .object (sections.map fun (name, settings) =>
      match sectionFields name, settings with
      | some fields, .array items => (name, .array (items.take fields.length))
      | _, _ => (name, settings))
  | j => j

def ofToml (text : String) : Except Error Config :=
  match Toml.parse? text >>= fun t => ofJson? (withoutSurplus t.toJson) with
  | some c => .ok c
  | none => .error .misread

def natVariable (vars : Variables) (key : String) : Except Error (Option Nat) :=
  match vars key with
  | none => .ok none
  | some raw =>
    match (Text.readUnsigned? (Text.trim raw.toList)).filter (· < UInt64.size) with
    | some n => .ok (some n)
    | none => .error (.notNumber key raw)

def withVariables (vars : Variables) (c : Config) : Except Error Config := do
  let minSize ← natVariable vars "SNAPGUARD_MIN_XML_BYTES"
  let maxSize ← natVariable vars "SNAPGUARD_MAX_XML_BYTES"
  let skew ← natVariable vars "SNAPGUARD_CLOCK_SKEW_SECS"
  let timeout ← natVariable vars "SNAPGUARD_LOOKUP_TIMEOUT_MS"
  let regeneration := (vars "SNAPGUARD_REGENERATION").map fun s => Text.asciiLower s == "true"
  let maxAge ← natVariable vars "SNAPGUARD_CACHE_MAX_AGE_SECS"
  return {
    validation := { c.validation with
      minSizeBytes := minSize.getD c.validation.minSizeBytes
      maxSizeBytes := maxSize.getD c.validation.maxSizeBytes
      maxFutureSkewSecs := skew.getD c.validation.maxFutureSkewSecs }
    recovery := {
      lookupTimeoutMs := timeout.getD c.recovery.lookupTimeoutMs
      allowRegeneration := regeneration.getD c.recovery.allowRegeneration }
    cache := { maxAgeSecs := maxAge.getD c.cache.maxAgeSecs } }

/-- Refuse settings under which every snapshot would fail. -/
def check (c : Config) : Except Error Unit :=
  let v := c.validation
  if v.maxSizeBytes < v.minSizeBytes then .error (.sizesCrossed v.minSizeBytes v.maxSizeBytes)
  else if !(0 ≤ v.minorPassRatio && v.minorPassRatio ≤ 1) then .error (.ratioOutside v.minorPassRatio)
  else if c.recovery.lookupTimeoutMs = 0 then .error .noTimeout
  else .ok ()

def load (text : Option String) (vars : Variables) : Except Error Config := do
  let base ← match text with
    | some text => ofToml text
    | none => .ok {}
  let c ← base.withVariables vars
  c.check
  return c

end Replay.Config
