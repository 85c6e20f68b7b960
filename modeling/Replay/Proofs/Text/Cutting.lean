import Mathlib.Data.List.Forall2
import Mathlib.Data.List.TakeWhile
import Replay.Proofs.Text.Reading
set_option autoImplicit false

namespace Replay

theorem mapM_eq_ok {ε α β : Type} {f : α → Except ε β} {xs : List α} {ys : List β} :
    xs.mapM f = .ok ys ↔ List.Forall₂ (fun y x => f x = .ok y) ys xs := by
  induction xs generalizing ys with
  | nil => cases ys <;> simp [pure, Except.pure]
  | cons x xs ih =>
    rw [List.mapM_cons, bind_eq_ok]
    constructor
    · rintro ⟨y, hy, h⟩
      obtain ⟨rest, hrest, h⟩ := bind_eq_ok.mp h
      obtain rfl := Except.ok.inj h
      exact .cons hy (ih.mp hrest)
    · rintro (_ | ⟨hy, hrest⟩)
      exact ⟨_, hy, bind_eq_ok.mpr ⟨_, ih.mpr hrest, rfl⟩⟩

theorem forall_right_of_forall₂ {α β : Type} {r : α → β → Prop} {q : β → Prop} {xs : List α}
    {ys : List β} (h : List.Forall₂ r xs ys) (hr : ∀ x y, r x y → q y) : ∀ y ∈ ys, q y := by
  induction h with
  | nil => nofun
  | cons hxy _ ih => exact List.forall_mem_cons.mpr ⟨hr _ _ hxy, ih⟩

namespace Text

theorem splitOnce?_eq_some {c : Char} {s before after : List Char} :
    splitOnce? [c] s = some (before, after) ↔ s = before ++ c :: after ∧ c ∉ before := by
  induction s generalizing before with
  | nil => simp [splitOnce?]
  | cons x s ih =>
    by_cases hx : c = x
    · subst hx
      cases before <;> simp +contextual [splitOnce?, stripStart?, eq_comm]
    · cases before <;> simp [splitOnce?, stripStart?, hx, Ne.symm hx, ih]
      grind

theorem append_cons_inj {c : Char} {before before' after after' : List Char} (h : c ∉ before)
    (h' : c ∉ before') (heq : before ++ c :: after = before' ++ c :: after') :
    before = before' ∧ after = after' := by
  have hfirst : splitOnce? [c] (before ++ c :: after) = some (before, after) :=
    splitOnce?_eq_some.mpr ⟨rfl, h⟩
  rw [splitOnce?_eq_some.mpr ⟨heq, h'⟩] at hfirst
  obtain ⟨rfl, rfl⟩ := Prod.mk.inj (Option.some.inj hfirst)
  exact ⟨rfl, rfl⟩

theorem splitOnce?_eq_none {c : Char} {s : List Char} : splitOnce? [c] s = none ↔ c ∉ s := by
  induction s with
  | nil => simp [splitOnce?]
  | cons x s ih =>
    by_cases hx : c = x
    · simp [splitOnce?, stripStart?, hx]
    · simp [splitOnce?, stripStart?, hx, ih]

/-- A text is cut at the first separator, if the one before does not begin like one. -/
theorem splitOnce?_append {first : Char} {more before : List Char} (h : first ∉ before)
    (after : List Char) :
    splitOnce? (first :: more) (before ++ (first :: more ++ after)) = some (before, after) := by
  have hsep : stripStart? (first :: more) (first :: more ++ after) = some after :=
    stripStart?_eq_some.mpr rfl
  induction before with
  | nil =>
    rw [List.nil_append, List.cons_append, splitOnce?, ← List.cons_append, hsep]
  | cons c before ih =>
    obtain ⟨hc, hbefore⟩ := not_or.mp (mt List.mem_cons.mpr h)
    have hno : stripStart? (first :: more) (c :: (before ++ (first :: more ++ after))) = none :=
      if_neg hc
    rw [List.cons_append, splitOnce?, hno]
    dsimp only
    rw [ih hbefore]
    rfl

theorem eq_append_of_splitOnce? {sep s before after : List Char}
    (h : splitOnce? sep s = some (before, after)) : s = before ++ (sep ++ after) := by
  induction s generalizing before with
  | nil =>
    cases sep with
    | nil =>
      obtain ⟨rfl, rfl⟩ := Prod.mk.inj (Option.some.inj h)
      rfl
    | cons c sep => cases h
  | cons c s ih =>
    rw [splitOnce?] at h
    split at h
    · next hstart =>
      obtain ⟨rfl, rfl⟩ := Prod.mk.inj (Option.some.inj h)
      rw [List.nil_append, stripStart?_eq_some.mp hstart]
    · next hstart =>
      obtain ⟨⟨front, back⟩, hsplit, hparts⟩ := Option.map_eq_some_iff.mp h
      obtain ⟨rfl, rfl⟩ := Prod.mk.inj hparts
      rw [ih hsplit]
      rfl

def Padded (t s : List Char) : Prop :=
  ∃ front back, s = front ++ t ++ back ∧ (∀ c ∈ front, isBlank c) ∧ ∀ c ∈ back, isBlank c

theorem padded_self (t : List Char) : Padded t t :=
  ⟨[], [], by rw [List.nil_append, List.append_nil], nofun, nofun⟩

/-- Trimming takes away blanks at both ends and nothing else. -/
theorem padded_trim (s : List Char) : Padded (trim s) s := by
  have hback (t : List Char) : t = trimEnd t ++ (t.reverse.takeWhile isBlank).reverse := by
    rw [trimEnd, ← List.reverse_append, List.takeWhile_append_dropWhile, List.reverse_reverse]
  refine ⟨s.takeWhile isBlank, ((trimStart s).reverse.takeWhile isBlank).reverse, ?_, ?_, ?_⟩
  · rw [trim, List.append_assoc, ← hback, trimStart, List.takeWhile_append_dropWhile]
  · exact fun c hc => List.mem_takeWhile_imp hc
  · exact fun c hc => List.mem_takeWhile_imp (List.mem_reverse.mp hc)

theorem mem_of_mem_trim {s : List Char} {c : Char} (h : c ∈ trim s) : c ∈ s := by
  obtain ⟨front, back, hs, -, -⟩ := padded_trim s
  rw [hs]
  simp [h]

theorem trim_eq_nil {s : List Char} : trim s = [] ↔ ∀ c ∈ s, isBlank c := by
  constructor
  · intro h
    obtain ⟨front, back, hs, hfront, hback⟩ := padded_trim s
    rw [hs, h, List.append_nil]
    exact List.forall_mem_append.mpr ⟨hfront, hback⟩
  · intro h
    rw [trim, trimStart, List.dropWhile_eq_nil_iff.mpr h]
    rfl

theorem trimmed_eq_empty {s : String} : trimmed s = "" ↔ isBlankText s := by
  rw [trimmed, isBlankText, List.all_eq_true, ← trim_eq_nil, ← String.toList_inj,
    String.toList_ofList]
  rfl

structure IsSolid (s : List Char) : Prop where
  ne_nil : s ≠ []
  head : ∀ c ∈ s.head?, isBlank c = false
  last : ∀ c ∈ s.getLast?, isBlank c = false

namespace IsSolid

variable {a b : List Char}

theorem trim (h : IsSolid a) : trim a = a := trim_of_ends h.head h.last

theorem of_forall (hne : a ≠ []) (h : ∀ c ∈ a, isBlank c = false) : IsSolid a where
  ne_nil := hne
  head c hc := h c (List.mem_of_mem_head? hc)
  last c hc := h c (List.mem_of_mem_getLast? hc)

theorem of_all (hne : a ≠ []) (h : a.all (!isBlank ·)) : IsSolid a :=
  of_forall hne (by simpa using h)

theorem append (ha : IsSolid a) (hb : IsSolid b) (between : List Char) :
    IsSolid (a ++ (between ++ b)) where
  ne_nil := List.append_ne_nil_of_left_ne_nil ha.ne_nil _
  head := by
    rw [List.head?_append_of_ne_nil _ ha.ne_nil]
    exact ha.head
  last := by
    rw [← List.append_assoc, List.getLast?_append_of_ne_nil _ hb.ne_nil]
    exact hb.last

theorem append_of_imp (ha : IsSolid a) (hb : b ≠ [] → IsSolid b) : IsSolid (a ++ b) := by
  by_cases hnil : b = []
  · rwa [hnil, List.append_nil]
  · exact ha.append (hb hnil) []

end IsSolid

/-- Trimming finds the text that stands between blanks, if it has none at its own ends. -/
theorem trim_eq_iff {s t : List Char} (ht : IsSolid t) : trim s = t ↔ Padded t s := by
  constructor
  · rintro rfl
    exact padded_trim s
  · rintro ⟨front, back, rfl, hfront, hback⟩
    have hstart : trimStart (front ++ t ++ back) = t ++ back := by
      rw [trimStart, List.append_assoc, List.dropWhile_append_of_pos hfront,
        dropWhile_isBlank]
      rw [List.head?_append_of_ne_nil _ ht.ne_nil]
      exact ht.head
    have hback : ∀ c ∈ back.reverse, isBlank c := fun c hc => hback c (List.mem_reverse.mp hc)
    rw [trim, hstart, trimEnd, List.reverse_append, List.dropWhile_append_of_pos hback,
      dropWhile_isBlank, List.reverse_reverse]
    rw [List.head?_reverse]
    exact ht.last

theorem Padded.notMem {s t : List Char} (h : Padded t s) {c : Char} (hc : isBlank c = false)
    (ht : c ∉ t) : c ∉ s := by
  obtain ⟨front, back, rfl, hfront, hback⟩ := h
  have hblank (s : List Char) (hs : ∀ c ∈ s, isBlank c) : c ∉ s := by
    intro hmem
    have hb := hs c hmem
    rw [hc] at hb
    cases hb
  simp [ht, hblank front hfront, hblank back hback]

def IsNumeral (digits : List Char) (n : Nat) : Prop :=
  digits ≠ [] ∧ (∀ c ∈ digits, c.isDigit) ∧ natOfDigits digits = n

theorem readNat?_eq_some {s : List Char} {n : Nat} : readNat? s = some n ↔ IsNumeral s n := by
  simp [readNat?, IsNumeral, and_assoc]

theorem readUnsigned?_eq_some {s : List Char} {n : Nat} :
    readUnsigned? s = some n ↔ ∃ digits, (s = digits ∨ s = '+' :: digits) ∧ IsNumeral digits n := by
  unfold readUnsigned?
  split
  · next digits =>
    rw [readNat?_eq_some]
    constructor
    · exact fun h => ⟨digits, Or.inr rfl, h⟩
    · rintro ⟨_, rfl | hplus, h⟩
      · cases h.2.1 '+' List.mem_cons_self
      · exact (List.cons.inj hplus).2 ▸ h
  · next hplus =>
    rw [readNat?_eq_some]
    constructor
    · exact fun h => ⟨s, Or.inl rfl, h⟩
    · rintro ⟨digits, rfl | rfl, h⟩
      · exact h
      · exact absurd rfl (hplus digits)

end Text

end Replay
