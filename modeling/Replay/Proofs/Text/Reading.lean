import Replay.Text.Basic
set_option autoImplicit false

namespace Replay

section Except

variable {ε α β : Type}

theorem bind_eq_ok {x : Except ε α} {f : α → Except ε β} {b : β} :
    x >>= f = .ok b ↔ ∃ a, x = .ok a ∧ f a = .ok b := by
  cases x <;> simp [bind, Except.bind]

theorem map_eq_ok {x : Except ε α} {f : α → β} {b : β} :
    x.map f = .ok b ↔ ∃ a, x = .ok a ∧ f a = b := by
  cases x <;> simp [Except.map]

end Except

theorem mapM_eq_some {α β : Type} {f : α → Option β} {xs : List α} {ys : List β} :
    xs.mapM f = some ys ↔ xs.map f = ys.map some := by
  induction xs generalizing ys with
  | nil => cases ys <;> simp
  | cons x xs ih =>
    rw [List.mapM_cons, List.map_cons, Option.bind_eq_bind, Option.bind_eq_some_iff]
    constructor
    · rintro ⟨y, hy, h⟩
      obtain ⟨rest, hrest, h⟩ := Option.bind_eq_some_iff.mp h
      obtain rfl := Option.some.inj h
      rw [hy, ih.mp hrest, List.map_cons]
    · intro h
      cases ys with
      | nil => cases h
      | cons y ys =>
        obtain ⟨hy, hrest⟩ := List.cons.inj h
        exact ⟨y, hy, Option.bind_eq_some_iff.mpr ⟨ys, ih.mpr hrest, rfl⟩⟩

end Replay

namespace Replay.Text

theorem stripStart?_eq_some {lead s rest : List Char} :
    stripStart? lead s = some rest ↔ s = lead ++ rest := by
  induction lead generalizing s with
  | nil => simp [stripStart?]
  | cons l lead ih =>
    cases s with
    | nil => simp [stripStart?]
    | cons c s =>
      rw [stripStart?]
      by_cases hc : l = c
      · simp [hc, ih]
      · simp [hc, Ne.symm hc]

theorem stripEnd?_eq_some {trail s rest : List Char} :
    stripEnd? trail s = some rest ↔ s = rest ++ trail := by
  rw [stripEnd?, Option.map_eq_some_iff]
  constructor
  · rintro ⟨back, hback, rfl⟩
    rw [← List.reverse_reverse s, stripStart?_eq_some.mp hback, List.reverse_append,
      List.reverse_reverse]
  · rintro rfl
    exact ⟨rest.reverse, stripStart?_eq_some.mpr List.reverse_append, List.reverse_reverse rest⟩

theorem dropWhile_isBlank {s : List Char} (h : ∀ c ∈ s.head?, isBlank c = false) :
    s.dropWhile isBlank = s := by
  cases s with
  | nil => rfl
  | cons c s => simp [h c rfl]

theorem trim_of_ends {s : List Char} (hfirst : ∀ c ∈ s.head?, isBlank c = false)
    (hlast : ∀ c ∈ s.getLast?, isBlank c = false) : trim s = s := by
  rw [trim, trimStart, dropWhile_isBlank hfirst, trimEnd,
    dropWhile_isBlank (by rwa [List.head?_reverse]), List.reverse_reverse]

theorem trim_of_all {s : List Char} (h : ∀ c ∈ s, isBlank c = false) : trim s = s :=
  trim_of_ends (fun c hc => h c (List.mem_of_mem_head? hc))
    fun c hc => h c (List.mem_of_mem_getLast? hc)

def blankCodes : List Nat :=
  [0x20, 9, 10, 11, 12, 13, 0x85, 0xa0, 0x1680, 0x2000, 0x2001, 0x2002, 0x2003, 0x2004, 0x2005,
    0x2006, 0x2007, 0x2008, 0x2009, 0x200a, 0x2028, 0x2029, 0x202f, 0x205f, 0x3000]

theorem mem_blankCodes {c : Char} (h : isBlank c) : c.toNat ∈ blankCodes := by
  simp only [isBlank, Bool.or_eq_true, Bool.and_eq_true, beq_iff_eq, decide_eq_true_eq,
    Char.le_def, UInt32.le_iff_toNat_le] at h
  obtain (((((((((rfl | h) | rfl) | rfl) | rfl) | h) | rfl) | rfl) | rfl) | rfl) | rfl := h
  case inl.inl.inl.inl.inl.inl.inl.inl.inl.inr =>
    have hrange : 9 ≤ c.toNat ∧ c.toNat ≤ 13 := h
    simp only [blankCodes, List.mem_cons]
    omega
  case inl.inl.inl.inl.inl.inr =>
    have hrange : 0x2000 ≤ c.toNat ∧ c.toNat ≤ 0x200a := h
    simp only [blankCodes, List.mem_cons]
    omega
  all_goals decide

theorem isBlank_of_isDigit {c : Char} (h : c.isDigit) : isBlank c = false := by
  cases hblank : isBlank c with
  | false => rfl
  | true =>
    have hall : ∀ n ∈ blankCodes, (Char.ofNat n).isDigit = false := by decide +kernel
    have hcode := hall c.toNat (mem_blankCodes hblank)
    rw [Char.ofNat_toNat, h] at hcode
    cases hcode

theorem natOfDigits_toDigits (n : Nat) : natOfDigits (Nat.toDigits 10 n) = n := by
  have hfold : natOfDigits (Nat.toDigits 10 n) = Nat.ofDigitChars 10 (Nat.toDigits 10 n) 0 := rfl
  rw [hfold, Nat.ofDigitChars_ten_toDigits]

theorem isDigit_of_mem_toDigits {n : Nat} {c : Char} (h : c ∈ Nat.toDigits 10 n) : c.isDigit :=
  Nat.isDigit_of_mem_toDigits (by decide) (by decide) h

theorem readNat?_toDigits (n : Nat) : readNat? (Nat.toDigits 10 n) = some n := by
  rw [readNat?, natOfDigits_toDigits, if_pos]
  rw [Bool.and_eq_true, List.all_eq_true]
  exact ⟨by simp [Nat.toDigits_ne_nil], fun c hc => isDigit_of_mem_toDigits hc⟩

theorem length_le_utf8ByteSize (s : String) : s.length ≤ s.utf8ByteSize := by
  have hlist (l : List Char) : l.length ≤ (String.ofList l).utf8ByteSize := by
    induction l with
    | nil => exact Nat.zero_le _
    | cons c l ih =>
      have hc := c.utf8Size_pos
      rw [← List.singleton_append, String.ofList_append, String.utf8ByteSize_append,
        List.length_append, List.length_singleton]
      have hsingle : (String.ofList [c]).utf8ByteSize = c.utf8Size := by
        simp
      omega
  have hs := hlist s.toList
  rwa [String.ofList_toList, String.length_toList] at hs

end Replay.Text
