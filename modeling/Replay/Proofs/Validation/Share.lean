set_option autoImplicit false

/-!
Comparing a small whole number with a limit in floating point. The order of positive numbers is
transitive, so what is below a limit stays below it when it gets smaller (`toFloat_lt_of_le`).
-/

namespace Replay.Share

open Float.Model

theorem zero_lt_iff {s : UnpackedFloat.Sign} {x : UnpackedFloat} :
    (UnpackedFloat.zero s).lt x ↔
      x = .infinity .positive ∨ ∃ m e h, x = .finite .positive m e h := by
  constructor
  · intro hlt
    rcases x with (_ | _) | _ | _ | ⟨_ | _, m, e, h⟩
    case infinity.positive => exact Or.inl rfl
    case finite.positive => exact Or.inr ⟨m, e, h, rfl⟩
    all_goals cases hlt
  · rintro (rfl | ⟨m, e, h, rfl⟩) <;> rfl

theorem positive_lt_iff {m : Nat} {e : Int} {h : 0 < m} {x : UnpackedFloat} :
    (UnpackedFloat.finite .positive m e h).lt x ↔
      x = .infinity .positive ∨ ∃ m' e' h', x = .finite .positive m' e' h' ∧
        (e < e' ∨ e = e' ∧ m < m') := by
  have hfinite (m' : Nat) (e' : Int) (h' : 0 < m') :
      (UnpackedFloat.finite .positive m e h).lt (.finite .positive m' e' h') ↔
        e < e' ∨ e = e' ∧ m < m' := by
    have hcompare : (UnpackedFloat.finite .positive m e h).lt (.finite .positive m' e' h') =
        (some ((compare e e').then (compare m m')) == some .lt) := rfl
    rw [hcompare]
    simp [Ordering.then_eq_lt, Std.compare_eq_lt]
  constructor
  · intro hlt
    rcases x with (_ | _) | _ | _ | ⟨_ | _, m', e', h'⟩
    case infinity.positive => exact Or.inl rfl
    case finite.positive => exact Or.inr ⟨m', e', h', rfl, (hfinite m' e' h').mp hlt⟩
    all_goals cases hlt
  · rintro (rfl | ⟨m', e', h', rfl, hle⟩)
    · rfl
    · exact (hfinite m' e' h').mpr hle

theorem infinity_not_lt (x : UnpackedFloat) : (UnpackedFloat.infinity .positive).lt x = false := by
  rcases x with (_ | _) | _ | _ | ⟨_ | _, _, _, _⟩ <;> rfl

theorem lt_iff {a b : Float} : a < b ↔ a.toModel.unpack.lt b.toModel.unpack :=
  show decide (a.toModel < b.toModel) = true ↔ _ from decide_eq_true_iff

theorem lt_trans_of_pos {a b x : Float} (ha : 0 < a) (hab : a < b) (hbx : b < x) : a < x := by
  have hzero : (0 : Float).toModel.unpack = .zero .positive := rfl
  rw [lt_iff, hzero, zero_lt_iff] at ha
  rw [lt_iff] at hab hbx ⊢
  obtain ha | ⟨m, e, h, ha⟩ := ha
  · simp [ha, infinity_not_lt] at hab
  · rw [ha, positive_lt_iff] at hab ⊢
    obtain hb | ⟨m', e', h', hb, hle⟩ := hab
    · simp [hb, infinity_not_lt] at hbx
    · rw [hb, positive_lt_iff] at hbx
      obtain hx | ⟨m'', e'', h'', hx, hle'⟩ := hbx
      · exact Or.inl hx
      · exact Or.inr ⟨m'', e'', h'', hx, by omega⟩

/-- There are seven checks of a snapshot, so counts up to seven are all that is compared. -/
theorem toFloat_lt_of_le {n m : Nat} (hn : 0 < n) (hnm : n ≤ m) (hm : m ≤ 7) {x : Float}
    (h : m.toFloat < x) : n.toFloat < x := by
  obtain rfl | hlt := Nat.eq_or_lt_of_le hnm
  · exact h
  · have hsmall : ∀ a b : Fin 8, 0 < a.val → a < b →
        0 < a.val.toFloat ∧ a.val.toFloat < b.val.toFloat := by decide +kernel
    obtain ⟨hpos, hab⟩ := hsmall ⟨n, by omega⟩ ⟨m, by omega⟩ hn hlt
    exact lt_trans_of_pos hpos hab h

end Replay.Share
