import Mathlib.Algebra.Group.Nat.Defs
import Replay.Decimal.Rounded
set_option autoImplicit false

namespace Replay.Decimal.Rounded

theorem div_le_nearest (num den : Nat) : num / den ≤ nearest num den := by
  simp only [nearest]
  split <;> omega

theorem nearest_le_div_succ (num den : Nat) : nearest num den ≤ num / den + 1 := by
  simp only [nearest]
  split <;> omega

theorem nearest_one (n : Nat) : nearest n 1 = n := by
  simp [nearest, Nat.mod_one]

theorem nearest_mono {a b den : Nat} (h : a ≤ b) : nearest a den ≤ nearest b den := by
  have ha := nearest_le_div_succ a den
  have hb := div_le_nearest b den
  obtain heq | hlt := Nat.eq_or_lt_of_le (Nat.div_le_div_right (c := den) h)
  · -- Within one quotient the remainder decides, and it grows too.
    have hmod : a % den ≤ b % den := by
      have hda := Nat.div_add_mod a den
      have hdb := Nat.div_add_mod b den
      rw [heq] at hda
      omega
    simp only [nearest, heq]
    split
    · split <;> omega
    · split <;> omega
  · omega

theorem den_round_pos (num den : Nat) : 0 < (round num den).den := by
  simp only [round]
  split
  · exact Nat.one_pos
  · split
    · exact Nat.pow_pos Nat.two_pos
    · exact Nat.one_pos

theorem leadingBit_le {num den k : Nat} (hnum : num ≠ 0) (h : num < den * 2 ^ (k + 1)) :
    leadingBit num den ≤ k := by
  have hlog : num.log2 < den.log2 + 1 + (k + 1) := by
    refine (Nat.pow_lt_pow_iff_right (a := 2) (by decide)).mp ?_
    calc 2 ^ num.log2 ≤ num := Nat.log2_self_le hnum
      _ < den * 2 ^ (k + 1) := h
      _ ≤ 2 ^ (den.log2 + 1) * 2 ^ (k + 1) :=
        Nat.mul_le_mul_right _ (Nat.le_of_lt Nat.lt_log2_self)
      _ = 2 ^ (den.log2 + 1 + (k + 1)) := (Nat.pow_add ..).symm
  simp only [leadingBit]
  split
  · next hfits =>
    refine Int.not_lt.mp fun hlt => ?_
    have hneg : (-((num.log2 : Int) - den.log2)).toNat = 0 := by omega
    have hpos : ((num.log2 : Int) - den.log2).toNat = num.log2 - den.log2 := by omega
    simp only [hneg, hpos, Nat.pow_eq, Nat.pow_zero, Nat.mul_one] at hfits
    have hpow : 2 ^ (k + 1) ≤ 2 ^ (num.log2 - den.log2) :=
      Nat.pow_le_pow_right Nat.two_pos (by omega)
    have hmul := Nat.mul_le_mul_left den hpow
    omega
  · omega

structure AtMost (a : Rounded) (bound : Nat) : Prop where
  den_pos : 0 < a.den
  num_le : a.num ≤ bound * a.den

/-- A number of at most 53 bits bounds the rounded fraction if it bounds the fraction. -/
theorem atMost_round {num den bound : Nat} (hden : 0 < den) (hbound : bound < 2 ^ 53)
    (h : num ≤ bound * den) : (round num den).AtMost bound := by
  refine ⟨den_round_pos num den, ?_⟩
  simp only [round]
  split
  · exact Nat.zero_le _
  · next hnum =>
    have hlead : leadingBit num den ≤ 52 := by
      refine leadingBit_le hnum (Nat.lt_of_le_of_lt h ?_)
      rw [Nat.mul_comm]
      exact Nat.mul_lt_mul_of_pos_left hbound hden
    rw [if_pos (by omega)]
    refine nearest_le hden ?_
    rw [Nat.mul_right_comm]
    exact Nat.mul_le_mul_right _ h

theorem atMost_ofNat {n bound : Nat} (h : n ≤ bound) (hbound : bound < 2 ^ 53) :
    (ofNat n).AtMost bound := atMost_round Nat.one_pos hbound (by omega)

section Bounds

variable {a b : Rounded} {m n : Nat}

theorem AtMost.mul (ha : a.AtMost m) (hb : b.AtMost n) (h : m * n < 2 ^ 53) :
    (mul a b).AtMost (m * n) := by
  refine atMost_round (Nat.mul_pos ha.den_pos hb.den_pos) h ?_
  rw [Nat.mul_mul_mul_comm]
  exact Nat.mul_le_mul ha.num_le hb.num_le

theorem AtMost.add (ha : a.AtMost m) (hb : b.AtMost n) (h : m + n < 2 ^ 53) :
    (add a b).AtMost (m + n) := by
  refine atMost_round (Nat.mul_pos ha.den_pos hb.den_pos) h ?_
  calc a.num * b.den + b.num * a.den
    _ ≤ m * a.den * b.den + n * b.den * a.den :=
      Nat.add_le_add (Nat.mul_le_mul_right _ ha.num_le) (Nat.mul_le_mul_right _ hb.num_le)
    _ = (m + n) * (a.den * b.den) := by
      rw [Nat.mul_right_comm n, Nat.mul_assoc, Nat.mul_assoc, Nat.add_mul]

theorem AtMost.toNat_le (h : a.AtMost n) : a.toNat ≤ n := by
  have hden := h.den_pos
  have hnum := h.num_le
  have hnext : (n + 1) * (2 * a.den) = 2 * (n * a.den) + 2 * a.den := by
    rw [Nat.succ_mul, Nat.mul_left_comm]
  refine Nat.le_of_lt_succ ((Nat.div_lt_iff_lt_mul (by omega)).mpr ?_)
  rw [Nat.succ_eq_add_one, hnext]
  omega

end Bounds

theorem leadingBit_one {n : Nat} (h : n ≠ 0) : leadingBit n 1 = n.log2 := by
  have hlog : (n.log2 : Int) - (1 : Nat).log2 = n.log2 := by simp [Nat.log2_def 1]
  have hneg : (-(n.log2 : Int)).toNat = 0 := by omega
  simp only [leadingBit, hlog, hneg, Int.toNat_natCast, Nat.pow_eq, Nat.pow_zero, Nat.mul_one,
    Nat.one_mul]
  exact if_pos (Nat.log2_self_le h)

theorem ofNat_of_lt {n : Nat} (h : n < 2 ^ 53) : (ofNat n).num = n * (ofNat n).den := by
  simp only [ofNat, round]
  split
  · next hzero => simp [hzero]
  · next hn =>
    have hlog : n.log2 < 53 := (Nat.log2_lt hn).mpr h
    rw [leadingBit_one hn, if_pos (by omega), nearest_one]

theorem ofNat_of_le {n : Nat} (h : 2 ^ 53 ≤ n) :
    ofNat n = ⟨nearest n (2 ^ (n.log2 - 52)) * 2 ^ (n.log2 - 52), 1⟩ := by
  have hn : n ≠ 0 := Nat.ne_of_gt (Nat.lt_of_lt_of_le (Nat.pow_pos Nat.two_pos) h)
  have hlog : 53 ≤ n.log2 := (Nat.le_log2 hn).mpr h
  have hshift : (-(52 - (n.log2 : Int))).toNat = n.log2 - 52 := by omega
  simp only [ofNat, round, leadingBit_one hn, hshift, if_neg hn, Nat.pow_eq, Nat.one_mul]
  exact if_neg (by omega)

theorem nearest_bounds {n k : Nat} (hk : n.log2 = k + 52) (hn : n ≠ 0) :
    2 ^ (k + 52) ≤ nearest n (2 ^ k) * 2 ^ k ∧ nearest n (2 ^ k) * 2 ^ k ≤ 2 ^ (k + 53) := by
  have hpow : 0 < 2 ^ k := Nat.pow_pos Nat.two_pos
  have hlow : 2 ^ (52 + k) ≤ n := by
    rw [Nat.add_comm, ← hk]
    exact Nat.log2_self_le hn
  have hhigh : n < 2 ^ (53 + k) := by
    have hlt := @Nat.lt_log2_self n
    rwa [hk, show k + 52 + 1 = 53 + k by omega] at hlt
  rw [Nat.pow_add] at hlow hhigh
  rw [Nat.add_comm k, Nat.add_comm k, Nat.pow_add, Nat.pow_add]
  constructor
  · refine Nat.mul_le_mul_right _ (Nat.le_trans ?_ (div_le_nearest n _))
    exact (Nat.le_div_iff_mul_le hpow).mpr hlow
  · exact Nat.mul_le_mul_right _ (nearest_le hpow (Nat.le_of_lt hhigh))

theorem ofNat_mono {n m : Nat} (h : n ≤ m) :
    (ofNat n).num * (ofNat m).den ≤ (ofNat m).num * (ofNat n).den := by
  obtain hm | hm := Nat.lt_or_ge m (2 ^ 53)
  · rw [ofNat_of_lt (Nat.lt_of_le_of_lt h hm), ofNat_of_lt hm, Nat.mul_right_comm]
    exact Nat.mul_le_mul_right _ (Nat.mul_le_mul_right _ h)
  · have hm0 : m ≠ 0 := Nat.ne_of_gt (Nat.lt_of_lt_of_le (Nat.pow_pos Nat.two_pos) hm)
    have hmlog : 53 ≤ m.log2 := (Nat.le_log2 hm0).mpr hm
    have hlow := (nearest_bounds (k := m.log2 - 52) (by omega) hm0).1
    obtain hn | hn := Nat.lt_or_ge n (2 ^ 53)
    · have hpow : 2 ^ 53 ≤ 2 ^ (m.log2 - 52 + 52) := Nat.pow_le_pow_right Nat.two_pos (by omega)
      have hle : n ≤ nearest m (2 ^ (m.log2 - 52)) * 2 ^ (m.log2 - 52) := by omega
      rw [ofNat_of_lt hn, ofNat_of_le hm, Nat.mul_one]
      exact Nat.mul_le_mul_right _ hle
    · have hn0 : n ≠ 0 := Nat.ne_of_gt (Nat.lt_of_lt_of_le (Nat.pow_pos Nat.two_pos) hn)
      have hnlog : 53 ≤ n.log2 := (Nat.le_log2 hn0).mpr hn
      have hhigh := (nearest_bounds (k := n.log2 - 52) (by omega) hn0).2
      have hlog : n.log2 ≤ m.log2 := (Nat.le_log2 hm0).mpr (Nat.le_trans (Nat.log2_self_le hn0) h)
      rw [ofNat_of_le hn, ofNat_of_le hm, Nat.mul_one, Nat.mul_one]
      obtain heq | hlt := Nat.eq_or_lt_of_le hlog
      · rw [heq]
        exact Nat.mul_le_mul_right _ (nearest_mono h)
      · -- A power of two lies between the two.
        have hpow : 2 ^ (n.log2 - 52 + 53) ≤ 2 ^ (m.log2 - 52 + 52) :=
          Nat.pow_le_pow_right Nat.two_pos (by omega)
        exact Nat.le_trans hhigh (Nat.le_trans hpow hlow)

theorem num_ofNat_pos {n : Nat} (h : 0 < n) : 0 < (ofNat n).num := by
  have hone : (ofNat 1).num = 1 * (ofNat 1).den := ofNat_of_lt (by decide)
  have hmono := ofNat_mono h
  have hden : 0 < (ofNat 1).den * (ofNat n).den :=
    Nat.mul_pos (den_round_pos _ _) (den_round_pos _ _)
  rw [hone, Nat.one_mul] at hmono
  exact Nat.pos_of_mul_pos_right (Nat.lt_of_lt_of_le hden hmono)

theorem atMost_div_ofNat {n m : Nat} (hm : 0 < m) (h : n ≤ m) :
    (div (ofNat n) (ofNat m)).AtMost 1 := by
  refine atMost_round (Nat.mul_pos (den_round_pos _ _) (num_ofNat_pos hm)) (by decide) ?_
  rw [Nat.one_mul, Nat.mul_comm (ofNat n).den]
  exact ofNat_mono h

end Replay.Decimal.Rounded
