import Replay.Proofs.Text.Cutting
import Replay.Proofs.Text.Digits
set_option autoImplicit false

namespace Replay.Text

theorem isNumeral_iff {s : List Char} {n : Nat} :
    IsNumeral s n ↔ ∃ width, s = (zeroPadded width n).toList := by
  constructor
  · rintro ⟨hne, hdigits, rfl⟩
    refine ⟨s.length, natOfDigits_inj hdigits (fun c => isDigit_of_mem_zeroPadded) ?_ ?_⟩
    · exact (length_zeroPadded (List.length_pos_of_ne_nil hne) (natOfDigits_lt hdigits)).symm
    · rw [natOfDigits_zeroPadded]
  · rintro ⟨width, rfl⟩
    exact ⟨zeroPadded_ne_nil width n, fun c => isDigit_of_mem_zeroPadded,
      natOfDigits_zeroPadded width n⟩

theorem map_readNat?_eq_some {α : Type} {f : Nat → α} {s : List Char} {a : α} :
    (readNat? s).map f = some a ↔ ∃ width n, s = (zeroPadded width n).toList ∧ f n = a := by
  simp only [Option.map_eq_some_iff, readNat?_eq_some, isNumeral_iff, ← exists_and_right]
  exact exists_comm

/-- The ways to write an integer: its decimal digits, with any zeros and at most one sign in
front. -/
inductive IsDecimal : List Char → Int → Prop where
  | bare (width n : Nat) : IsDecimal (zeroPadded width n).toList n
  | plus (width n : Nat) : IsDecimal ('+' :: (zeroPadded width n).toList) n
  | minus (width n : Nat) : IsDecimal ('-' :: (zeroPadded width n).toList) (-n)

namespace IsDecimal

variable {s : List Char} {n : Int}

theorem mem (h : IsDecimal s n) {c : Char} (hc : c ∈ s) : c.isDigit ∨ c = '+' ∨ c = '-' := by
  cases h with
  | bare width n => exact Or.inl (isDigit_of_mem_zeroPadded hc)
  | plus width n =>
    obtain rfl | hc := List.mem_cons.mp hc
    · exact Or.inr (Or.inl rfl)
    · exact Or.inl (isDigit_of_mem_zeroPadded hc)
  | minus width n =>
    obtain rfl | hc := List.mem_cons.mp hc
    · exact Or.inr (Or.inr rfl)
    · exact Or.inl (isDigit_of_mem_zeroPadded hc)

theorem notMem (h : IsDecimal s n) {c : Char} (hdigit : c.isDigit = false)
    (hsign : c ≠ '+' ∧ c ≠ '-') : c ∉ s := by
  intro hc
  obtain hc | rfl | rfl := h.mem hc
  · rw [hdigit] at hc
    cases hc
  · exact hsign.1 rfl
  · exact hsign.2 rfl

theorem isSolid (h : IsDecimal s n) : IsSolid s := by
  refine IsSolid.of_forall ?_ fun c hc => ?_
  · cases h with
    | bare width n => exact zeroPadded_ne_nil width n
    | plus width n => exact List.cons_ne_nil _ _
    | minus width n => exact List.cons_ne_nil _ _
  · obtain hc | rfl | rfl := h.mem hc
    · exact isBlank_of_isDigit hc
    · decide
    · decide

end IsDecimal

theorem isDecimal_toString (n : Int) : IsDecimal (toString n).toList n := by
  have hdigits : Nat.toDigits 10 n.natAbs = (zeroPadded 0 n.natAbs).toList := by
    rw [toList_zeroPadded, Nat.zero_sub, List.replicate_zero, List.nil_append]
  have hnat : IsDecimal (zeroPadded 0 n.natAbs).toList n.natAbs := .bare 0 n.natAbs
  have hneg : IsDecimal ('-' :: (zeroPadded 0 n.natAbs).toList) (-n.natAbs) := .minus 0 n.natAbs
  rw [toList_toString, hdigits]
  split
  · have habs : -(n.natAbs : Int) = n := by omega
    rwa [habs] at hneg
  · have habs : (n.natAbs : Int) = n := by omega
    rwa [habs] at hnat

theorem readInt?_eq_some {s : List Char} {n : Int} : readInt? s = some n ↔ IsDecimal s n := by
  constructor
  · intro h
    unfold readInt? at h
    split at h
    · obtain ⟨width, n, rfl, rfl⟩ := map_readNat?_eq_some.mp h
      exact .minus width n
    · obtain ⟨width, n, rfl, rfl⟩ := map_readNat?_eq_some.mp h
      exact .plus width n
    · obtain ⟨width, n, rfl, rfl⟩ := map_readNat?_eq_some.mp h
      exact .bare width n
  · intro h
    cases h with
    | minus width n => exact map_readNat?_eq_some.mpr ⟨width, n, rfl, rfl⟩
    | plus width n => exact map_readNat?_eq_some.mpr ⟨width, n, rfl, rfl⟩
    | bare width n =>
      obtain ⟨d, digits, hd, hdigit⟩ := exists_digit_zeroPadded width n
      have hsign {c : Char} {s : List Char} (hc : c.isDigit = false) :
          (zeroPadded width n).toList ≠ c :: s := by
        rw [hd]
        rintro ⟨⟩
        rw [hc] at hdigit
        cases hdigit
      unfold readInt?
      split
      · next heq => exact absurd heq (hsign rfl)
      · next heq => exact absurd heq (hsign rfl)
      · exact map_readNat?_eq_some.mpr ⟨width, n, rfl, rfl⟩

theorem readInt32?_eq_some {s : List Char} {x : Int32} :
    readInt32? s = some x ↔ IsDecimal s x.toInt := by
  rw [← readInt?_eq_some, readInt32?, Option.bind_eq_bind, Option.bind_eq_some_iff]
  constructor
  · rintro ⟨n, hn, h⟩
    split at h
    · next hrange =>
      obtain rfl := Option.some.inj h
      rw [hn, Int32.toInt_ofInt_of_le hrange.1 hrange.2]
    · cases h
  · intro h
    have hlow := x.le_toInt
    have hhigh := x.toInt_lt
    exact ⟨x.toInt, h, by rw [if_pos (by omega), Int32.ofInt_toInt]⟩

end Replay.Text
