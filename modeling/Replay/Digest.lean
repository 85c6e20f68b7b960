import Replay.Sha256
import Replay.Text.Basic
set_option autoImplicit false

namespace Replay

/-- The SHA-256 digest of a content in lower-case hexadecimal. The empty text stands for the
absence of a hash; texts that were read need not be digests. -/
structure ContentHash where
  text : String := ""
  deriving DecidableEq, Repr, Inhabited

namespace ContentHash

instance : LT ContentHash := ⟨fun a b => a.text < b.text⟩

instance : DecidableLT ContentHash := fun a b => inferInstanceAs (Decidable (a.text < b.text))

def of (content : String) : ContentHash := ⟨Sha256.digest content.toUTF8⟩

def ofText (s : String) : ContentHash := ⟨Text.asciiLower s⟩

def isEmpty (h : ContentHash) : Bool := h.text.isEmpty

def short (h : ContentHash) : String := String.ofList (h.text.toList.take 12)

def fits (h : ContentHash) (content : String) : Bool := !h.isEmpty && h == of content

def ofContent (content : String) : ContentHash := if content.isEmpty then {} else of content

@[simp] theorem isEmpty_of (content : String) : (of content).isEmpty = false := by
  have h : (of content).text.length = 64 := Sha256.length_digest _
  rw [isEmpty, Bool.eq_false_iff]
  intro he
  rw [String.isEmpty_iff] at he
  simp [he] at h

@[simp] theorem fits_of (content : String) : (of content).fits content = true := by
  simp [fits]

end ContentHash

end Replay
