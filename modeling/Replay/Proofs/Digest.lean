import Mathlib
import Replay.Digest
import Replay.Proofs.Text.Reading
set_option autoImplicit false

namespace Replay

namespace ContentHash

def IsLower (h : ContentHash) : Prop := ofText h.text = h

theorem isLower_empty : IsLower {} := rfl

theorem isLower_ofText (s : String) : (ofText s).IsLower := by
  simp [IsLower, ofText, Text.asciiLower, Function.comp_def]

theorem exists_digit {content : String} {c : Char} (h : c ∈ (of content).text.toList) :
    ∃ n < 16, c = Nat.digitChar n := by
  rw [of, Sha256.digest, String.toList_ofList] at h
  obtain ⟨x, -, hx⟩ := List.mem_flatMap.mp h
  obtain ⟨i, -, rfl⟩ := List.mem_map.mp hx
  exact ⟨_, Nat.mod_lt _ (by decide), rfl⟩

theorem isLower_of (content : String) : (of content).IsLower := by
  have hdigit : ∀ n < 16, (Nat.digitChar n).toLower = Nat.digitChar n := by decide
  have hlower : (of content).text.toList.map Char.toLower = (of content).text.toList := by
    refine (List.map_congr_left fun c hc => ?_).trans (List.map_id _)
    obtain ⟨n, hn, rfl⟩ := exists_digit hc
    exact hdigit n hn
  rw [IsLower, ofText, Text.asciiLower, hlower, String.ofList_toList]

theorem trimmed_of (content : String) : Text.trimmed (of content).text = (of content).text := by
  have hdigit : ∀ n < 16, Text.isBlank (Nat.digitChar n) = false := by decide
  have hblank : ∀ c ∈ (of content).text.toList, Text.isBlank c = false := by
    intro c hc
    obtain ⟨n, hn, rfl⟩ := exists_digit hc
    exact hdigit n hn
  rw [Text.trimmed, Text.trim_of_all hblank, String.ofList_toList]

instance : Trans (fun a b : ContentHash => a < b) (fun a b : ContentHash => a < b)
    (fun a b : ContentHash => a < b) :=
  ⟨fun {a b c} (hab : a.text < b.text) (hbc : b.text < c.text) => String.lt_trans hab hbc⟩

instance : Std.Irrefl (fun a b : ContentHash => a < b) :=
  ⟨fun a (h : a.text < a.text) => String.lt_irrefl _ h⟩

instance : Std.Trichotomous (fun a b : ContentHash => a < b) where
  trichotomous := fun ⟨_⟩ ⟨_⟩ hab hba =>
    congrArg mk (String.le_antisymm (String.not_lt.mp hba) (String.not_lt.mp hab))

end ContentHash

end Replay
