import Mathlib.Algebra.Group.Nat.Defs
import Replay.Proofs.Text.Reading
set_option autoImplicit false

namespace Replay.Text

def EndsDigits (s : List Char) : Prop := ∀ c ∈ s.head?, c.isDigit = false

theorem takeWhile_digits {digits rest : List Char} (hdigits : ∀ c ∈ digits, c.isDigit)
    (hrest : EndsDigits rest) :
    (digits ++ rest).takeWhile Char.isDigit = digits ∧
      (digits ++ rest).dropWhile Char.isDigit = rest := by
  rw [List.takeWhile_append_of_pos hdigits, List.dropWhile_append_of_pos hdigits]
  cases rest with
  | nil => simp
  | cons c rest =>
    have hc : c.isDigit = false := hrest c rfl
    simp [hc]

theorem digitValue_le {c : Char} (h : c.isDigit) : digitValue c ≤ 9 := by
  obtain ⟨-, hc⟩ := Char.isDigit_iff_toNat.mp h
  have hnine : '9'.toNat = 57 := rfl
  have hzero : '0'.toNat = 48 := rfl
  unfold digitValue
  omega

theorem natOfDigits_lt {digits : List Char} (h : ∀ c ∈ digits, c.isDigit) :
    natOfDigits digits < 10 ^ digits.length := by
  have hfold (start : Nat) : digits.foldl (fun n c => 10 * n + digitValue c) start <
      (start + 1) * 10 ^ digits.length := by
    induction digits generalizing start with
    | nil => simp
    | cons c digits ih =>
      have hc := digitValue_le (h c List.mem_cons_self)
      have hrest := ih (fun x hx => h x (List.mem_cons_of_mem c hx)) (10 * start + digitValue c)
      rw [List.foldl_cons, List.length_cons, Nat.pow_succ, Nat.mul_comm _ 10, ← Nat.mul_assoc]
      exact Nat.lt_of_lt_of_le hrest (Nat.mul_le_mul_right _ (by omega))
  simpa [natOfDigits] using hfold 0

theorem digitValue_inj {c d : Char} (hc : c.isDigit) (hd : d.isDigit)
    (h : digitValue c = digitValue d) : c = d := by
  obtain ⟨hclow, -⟩ := Char.isDigit_iff_toNat.mp hc
  obtain ⟨hdlow, -⟩ := Char.isDigit_iff_toNat.mp hd
  have hzero : '0'.toNat = 48 := rfl
  unfold digitValue at h
  exact Char.toNat_inj.mp (by omega)

theorem natOfDigits_inj {a b : List Char} (ha : ∀ c ∈ a, c.isDigit) (hb : ∀ c ∈ b, c.isDigit)
    (hlength : a.length = b.length) (h : natOfDigits a = natOfDigits b) : a = b := by
  -- What the numbers read so far differ in, no digits to come make up for.
  have hfold (m n : Nat) : a.foldl (fun n c => 10 * n + digitValue c) m =
      b.foldl (fun n c => 10 * n + digitValue c) n → m = n ∧ a = b := by
    clear h
    induction a generalizing b m n with
    | nil =>
      obtain rfl := List.length_eq_zero_iff.mp hlength.symm
      exact fun h => ⟨h, rfl⟩
    | cons c a ih =>
      cases b with
      | nil => cases hlength
      | cons d b =>
        intro h
        obtain ⟨hc, ha⟩ := List.forall_mem_cons.mp ha
        obtain ⟨hd, hb⟩ := List.forall_mem_cons.mp hb
        obtain ⟨hvalue, rfl⟩ : 10 * m + digitValue c = 10 * n + digitValue d ∧ a = b :=
          ih ha hb (Nat.succ.inj hlength) _ _ h
        have hcnine := digitValue_le hc
        have hdnine := digitValue_le hd
        have hstart : m = n := by omega
        have hdigit : digitValue c = digitValue d := by omega
        exact ⟨hstart, by rw [digitValue_inj hc hd hdigit]⟩
  exact (hfold 0 0 h).2

theorem natOfDigits_replicate (k : Nat) (digits : List Char) :
    natOfDigits (List.replicate k '0' ++ digits) = natOfDigits digits := by
  have hzero : digitValue '0' = 0 := rfl
  induction k with
  | zero => rfl
  | succ k ih =>
    rw [List.replicate_succ, List.cons_append, ← ih, natOfDigits, List.foldl_cons, hzero]
    rfl

theorem toList_zeroPadded (width n : Nat) : (zeroPadded width n).toList =
    List.replicate (width - (Nat.toDigits 10 n).length) '0' ++ Nat.toDigits 10 n := by
  rw [zeroPadded, String.toList_ofList]

theorem isDigit_of_mem_zeroPadded {width n : Nat} {c : Char}
    (h : c ∈ (zeroPadded width n).toList) : c.isDigit := by
  rw [toList_zeroPadded] at h
  obtain h | h := List.mem_append.mp h
  · rw [List.eq_of_mem_replicate h]
    decide
  · exact isDigit_of_mem_toDigits h

theorem natOfDigits_zeroPadded (width n : Nat) : natOfDigits (zeroPadded width n).toList = n := by
  rw [toList_zeroPadded, natOfDigits_replicate, natOfDigits_toDigits]

theorem length_zeroPadded {width n : Nat} (hwidth : 0 < width) (hn : n < 10 ^ width) :
    (zeroPadded width n).toList.length = width := by
  have hlength := (Nat.length_toDigits_le_iff (by decide) hwidth).mpr hn
  rw [toList_zeroPadded, List.length_append, List.length_replicate]
  omega

theorem zeroPadded_ne_nil (width n : Nat) : (zeroPadded width n).toList ≠ [] := by
  rw [toList_zeroPadded]
  simp [Nat.toDigits_ne_nil]

theorem exists_digit_zeroPadded (width n : Nat) :
    ∃ c s, (zeroPadded width n).toList = c :: s ∧ c.isDigit := by
  obtain ⟨c, s, hc⟩ := List.exists_cons_of_ne_nil (zeroPadded_ne_nil width n)
  exact ⟨c, s, hc, isDigit_of_mem_zeroPadded (hc ▸ List.mem_cons_self)⟩

/-- No zero stands in front, unless it is all there is. -/
theorem toDigits_of_head? {n : Nat} (h : (Nat.toDigits 10 n).head? = some '0') :
    Nat.toDigits 10 n = ['0'] := by
  induction n using Nat.strongRecOn with
  | ind n ih =>
    obtain hlt | hle := Nat.lt_or_ge n 10
    · rw [Nat.toDigits_of_lt_base hlt] at h ⊢
      rw [List.head?_cons] at h
      rw [Option.some.inj h]
    · rw [Nat.toDigits_of_base_le (by decide) hle] at h
      have hhead : (Nat.toDigits 10 (n / 10)).head? = some '0' := by
        obtain ⟨c, digits, hdigits⟩ := List.exists_cons_of_ne_nil
          (Nat.toDigits_ne_nil (b := 10) (n := n / 10))
        rw [hdigits] at h ⊢
        exact h
      have hvalue := natOfDigits_toDigits (n / 10)
      rw [ih (n / 10) (by omega) hhead] at hvalue
      have hzero : natOfDigits ['0'] = 0 := rfl
      omega

theorem toList_toString (n : Int) : (toString n).toList =
    if n < 0 then '-' :: Nat.toDigits 10 n.natAbs else Nat.toDigits 10 n.natAbs := by
  rw [Int.toString_eq_repr, Int.repr_eq_if]
  by_cases hn : n < 0
  · have habs : (-n).toNat = n.natAbs := by omega
    rw [if_neg (by omega), if_pos hn, String.toList_append, Nat.toList_repr, habs]
    rfl
  · have habs : n.toNat = n.natAbs := by omega
    rw [if_pos (by omega), if_neg hn, Nat.toList_repr, habs]

theorem mem_toString {n : Int} {c : Char} (h : c ∈ (toString n).toList) :
    c.isDigit = true ∨ c = '-' := by
  rw [toList_toString] at h
  split at h
  · obtain rfl | h := List.mem_cons.mp h
    · exact Or.inr rfl
    · exact Or.inl (isDigit_of_mem_toDigits h)
  · exact Or.inl (isDigit_of_mem_toDigits h)

end Replay.Text
