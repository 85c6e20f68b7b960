import Replay.Instant.Basic
set_option autoImplicit false

namespace Replay.Instant

theorem le_iff (a b : Instant) :
    a ≤ b ↔ a.second < b.second ∨ a.second = b.second ∧ a.nano ≤ b.nano := by
  change a.le b = true ↔ _
  simp [le]

theorem le_refl (a : Instant) : a ≤ a := (le_iff a a).mpr (Or.inr ⟨rfl, Nat.le_refl _⟩)

theorem le_total (a b : Instant) : a ≤ b ∨ b ≤ a := by
  rw [le_iff, le_iff]
  omega

theorem le_trans {a b c : Instant} (hab : a ≤ b) (hbc : b ≤ c) : a ≤ c := by
  rw [le_iff] at hab hbc ⊢
  omega

theorem le_antisymm {a b : Instant} (hab : a ≤ b) (hba : b ≤ a) : a = b := by
  obtain ⟨second, nano⟩ := a
  obtain ⟨second', nano'⟩ := b
  rw [le_iff] at hab hba
  simp only at hab hba
  rw [Instant.mk.injEq]
  omega

end Replay.Instant
