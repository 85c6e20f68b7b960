import Replay.Instant.Reader
import Replay.Json.Basic
import Replay.Rect
set_option autoImplicit false

/-!
Reading and writing records as JSON objects. A record is read field by field; names that are not
asked for are ignored. Values listed in an array are taken as the fields in their order.
-/

namespace Replay.Wire

abbrev Fields := Ordered.Map String Json

def fields? (names : List String) : Json → Option Fields
  | .object members => some members
  | .array items => if items.length ≤ names.length then some (names.zip items) else none
  | _ => none

def required {α : Type} (m : Fields) (name : String) (read : Json → Option α) : Option α :=
  Ordered.get? name m >>= read

def defaulted {α : Type} (m : Fields) (name : String) (missing : α) (read : Json → Option α) :
    Option α :=
  match Ordered.get? name m with
  | none => some missing
  | some j => read j

/-- A field that may be missing or null. -/
def optional {α : Type} (m : Fields) (name : String) (read : Json → Option α) : Option (Option α) :=
  match Ordered.get? name m with
  | none | some .null => some none
  | some j => (read j).map some

def readString : Json → Option String
  | .string s => some s
  | _ => none

def readBool : Json → Option Bool
  | .bool b => some b
  | _ => none

def readNat (limit : Nat) : Json → Option Nat
  | .number (.integer n) => if 0 ≤ n ∧ n < limit then some n.toNat else none
  | _ => none

def readNat32 : Json → Option Nat := readNat UInt32.size

def readNat64 : Json → Option Nat := readNat UInt64.size

def readFloat : Json → Option Float
  | .number (.real x) => some x
  | .number (.integer n) => some (if n < 0 then -(n.natAbs.toUInt64.toFloat) else n.toNat.toUInt64.toFloat)
  | _ => none

def readList {α : Type} (read : Json → Option α) : Json → Option (List α)
  | .array items => items.mapM read
  | _ => none

def readName {α : Type} (all : List α) (name : α → String) : Json → Option α
  | .string s => all.find? fun x => name x == s
  | .object [(s, .null)] => all.find? fun x => name x == s
  | _ => none

def readInstant (j : Json) : Option Instant := readString j >>= Instant.parse?

def readRect (j : Json) : Option Rect := readString j >>= Rect.parse?

def put (name : String) (value : Json) : Json.Members := [(name, value)]

def putSome {α : Type} (name : String) (write : α → Json) (value : Option α) : Json.Members :=
  match value with
  | some x => [(name, write x)]
  | none => []

def putIf (condition : Bool) (name : String) (value : Json) : Json.Members :=
  if condition then [(name, value)] else []

def writeOption {α : Type} (write : α → Json) : Option α → Json
  | some x => write x
  | none => .null

def writeList {α : Type} (write : α → Json) (items : List α) : Json := .array (items.map write)

def writeInstant (t : Instant) : Json := .string t.render

def writeRect (r : Rect) : Json := .string r.render

end Replay.Wire
