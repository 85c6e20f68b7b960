import Mathlib.Data.List.TakeWhile
import Replay.Proofs.Rect
import Replay.Xml.Rescale
set_option autoImplicit false

/-!
What rescaling does to a text. It finds exactly the bounds attributes that are written without
spaces and in double quotes (`splitBounds?_eq_some`); each of them is rewritten and every other
character stays (`map_bounds`, `map_cons_of_none`), so that the text can be cut at characters that no
such attribute has (`map_append_cons`).
-/

namespace Replay.Xml.Rescale

open Text (EndsDigits)

def IsCoordinate (s : List Char) : Prop :=
  ∃ sign digits, (sign = [] ∨ sign = ['-']) ∧ digits ≠ [] ∧ (∀ c ∈ digits, c.isDigit) ∧
    s = sign ++ digits

def IsCorner (s : List Char) : Prop :=
  ∃ x y, IsCoordinate x ∧ IsCoordinate y ∧ s = '[' :: (x ++ ',' :: (y ++ [']']))

def IsCorners (s : List Char) : Prop := ∃ a b, IsCorner a ∧ IsCorner b ∧ s = a ++ b

def IsCornerChar (c : Char) : Prop := c.isDigit ∨ c ∈ ['-', ',', '[', ']']

instance (c : Char) : Decidable (IsCornerChar c) := inferInstanceAs (Decidable (_ ∨ _))

theorem IsCoordinate.mem {s : List Char} (h : IsCoordinate s) {c : Char} (hc : c ∈ s) :
    IsCornerChar c := by
  obtain ⟨sign, digits, hsign, -, hdigits, rfl⟩ := h
  obtain hc | hc := List.mem_append.mp hc
  · obtain rfl | rfl := hsign
    · cases hc
    · rw [List.mem_singleton.mp hc]
      decide
  · exact Or.inl (hdigits c hc)

theorem IsCorner.mem {s : List Char} (h : IsCorner s) {c : Char} (hc : c ∈ s) : IsCornerChar c := by
  obtain ⟨x, y, hx, hy, rfl⟩ := h
  simp only [List.mem_cons, List.mem_append, List.not_mem_nil, or_false] at hc
  obtain rfl | hc | rfl | hc | rfl := hc
  · decide
  · exact hx.mem hc
  · decide
  · exact hy.mem hc
  · decide

theorem IsCorners.forall_mem {s : List Char} (h : IsCorners s) : ∀ c ∈ s, IsCornerChar c := by
  obtain ⟨a, b, ha, hb, rfl⟩ := h
  exact fun c hc => (List.mem_append.mp hc).elim ha.mem hb.mem

theorem IsCorners.notMem {s : List Char} (h : IsCorners s) {c : Char} (hc : ¬ IsCornerChar c) :
    c ∉ s := fun hmem => hc (h.forall_mem c hmem)

theorem skipCoordinate?_of_head? {s : List Char} (hs : s.head? ≠ some '-') : skipCoordinate? s =
    if (s.takeWhile Char.isDigit).isEmpty then none else some (s.dropWhile Char.isDigit) := by
  unfold skipCoordinate?
  split
  · exact absurd rfl hs
  · rfl

theorem endsDigits_dropWhile (s : List Char) : EndsDigits (s.dropWhile Char.isDigit) := by
  intro c hc
  have hhead := List.head?_dropWhile_not Char.isDigit s
  rw [Option.mem_def.mp hc] at hhead
  simpa using hhead

theorem skipDigits_eq_some {s rest : List Char} :
    (if (s.takeWhile Char.isDigit).isEmpty then none else some (s.dropWhile Char.isDigit)) =
        some rest ↔
      ∃ digits, digits ≠ [] ∧ (∀ c ∈ digits, c.isDigit) ∧ EndsDigits rest ∧ s = digits ++ rest := by
  constructor
  · intro h
    split at h
    · cases h
    · next hne =>
      obtain rfl := Option.some.inj h
      exact ⟨s.takeWhile Char.isDigit, by simpa using hne, fun c hc => List.mem_takeWhile_imp hc,
        endsDigits_dropWhile s, List.takeWhile_append_dropWhile.symm⟩
  · rintro ⟨digits, hne, hdigits, hrest, rfl⟩
    obtain ⟨htake, hdrop⟩ := Text.takeWhile_digits hdigits hrest
    rw [htake, hdrop, if_neg (by simpa using hne)]

theorem skipCoordinate?_eq_some {s rest : List Char} : skipCoordinate? s = some rest ↔
    ∃ x, IsCoordinate x ∧ EndsDigits rest ∧ s = x ++ rest := by
  by_cases hs : s.head? = some '-'
  · obtain ⟨s, rfl⟩ := List.head?_eq_some_iff.mp hs
    refine skipDigits_eq_some.trans ⟨?_, ?_⟩
    · rintro ⟨digits, hne, hdigits, hrest, rfl⟩
      exact ⟨_, ⟨['-'], digits, Or.inr rfl, hne, hdigits, rfl⟩, hrest, rfl⟩
    · rintro ⟨_, ⟨_, digits, hsign, hne, hdigits, rfl⟩, hrest, heq⟩
      obtain rfl | rfl := hsign
      · obtain ⟨d, digits, rfl⟩ := List.exists_cons_of_ne_nil hne
        have hd := hdigits d List.mem_cons_self
        rw [← (List.cons.inj heq).1] at hd
        cases hd
      · exact ⟨digits, hne, hdigits, hrest, (List.cons.inj heq).2⟩
  · rw [skipCoordinate?_of_head? hs]
    refine skipDigits_eq_some.trans ⟨?_, ?_⟩
    · rintro ⟨digits, hne, hdigits, hrest, rfl⟩
      exact ⟨_, ⟨[], digits, Or.inl rfl, hne, hdigits, rfl⟩, hrest, rfl⟩
    · rintro ⟨_, ⟨_, digits, hsign, hne, hdigits, rfl⟩, hrest, rfl⟩
      obtain rfl | rfl := hsign
      · exact ⟨digits, hne, hdigits, hrest, rfl⟩
      · exact absurd rfl hs

theorem skipCorner?_eq_some {s rest : List Char} :
    skipCorner? s = some rest ↔ ∃ a, IsCorner a ∧ s = a ++ rest := by
  simp only [skipCorner?, Option.bind_eq_bind, Option.bind_eq_some_iff, Text.stripStart?_eq_some,
    skipCoordinate?_eq_some]
  constructor
  · rintro ⟨_, ⟨_, ⟨_, ⟨_, rfl, x, hx, -, rfl⟩, rfl⟩, y, hy, -, rfl⟩, rfl⟩
    exact ⟨_, ⟨x, y, hx, hy, rfl⟩, by simp⟩
  · rintro ⟨_, ⟨x, y, hx, hy, rfl⟩, rfl⟩
    refine ⟨']' :: rest, ⟨y ++ ']' :: rest, ⟨',' :: (y ++ ']' :: rest),
      ⟨x ++ ',' :: (y ++ ']' :: rest), by simp, x, hx, ?_, rfl⟩, rfl⟩, y, hy, ?_, rfl⟩, rfl⟩
    · rintro c ⟨⟩
      rfl
    · rintro c ⟨⟩
      rfl

/-- The bounds attributes that are found, each with the text behind it. -/
theorem splitBounds?_eq_some {s value rest : List Char} : splitBounds? s = some (value, rest) ↔
    IsCorners value ∧ s = attributeStart ++ (value ++ '"' :: rest) := by
  simp only [splitBounds?, Option.bind_eq_bind, Option.bind_eq_some_iff, Text.stripStart?_eq_some,
    skipCorner?_eq_some, Option.pure_def, Option.some.injEq, Prod.mk.injEq]
  have htake {a b : List Char} (ha : IsCorner a) (hb : IsCorner b) (rest : List Char) :
      (a ++ (b ++ '"' :: rest)).takeWhile (· != '"') = a ++ b := by
    have hno : ∀ c ∈ a ++ b, (c != '"') = true := by
      intro c hc
      have hne : c ≠ '"' := by
        rintro rfl
        exact IsCorners.notMem ⟨a, b, ha, hb, rfl⟩ (by decide) hc
      simpa using hne
    rw [← List.append_assoc, List.takeWhile_append_of_pos hno, List.takeWhile_cons_of_neg (by simp),
      List.append_nil]
  constructor
  · rintro ⟨_, rfl, _, ⟨_, ⟨_, ⟨a, ha, rfl⟩, b, hb, rfl⟩, rfl⟩, rfl, rfl⟩
    rw [List.singleton_append, htake ha hb]
    exact ⟨⟨a, b, ha, hb, rfl⟩, by simp⟩
  · rintro ⟨⟨a, b, ha, hb, rfl⟩, rfl⟩
    refine ⟨a ++ (b ++ '"' :: rest), by simp, rest,
      ⟨'"' :: rest, ⟨b ++ '"' :: rest, ⟨a, ha, rfl⟩, b, hb, rfl⟩, rfl⟩, htake ha hb rest, rfl⟩

variable (change : Rect → Rect)

def mapValue (value : List Char) : List Char :=
  ((Rect.read? value).map fun r => (change r).render.toList).getD value

theorem mapBoundsChars_cons (c : Char) (s : List Char) :
    mapBoundsChars change (c :: s) = putChar change c (mapBoundsChars change s) := rfl

theorem putChar_of_none {c : Char} {s : List Char} (h : splitBounds? (c :: s) = none) :
    putChar change c s = c :: s := by
  unfold putChar
  rw [h]

theorem putChar_of_some {c : Char} {s value rest : List Char}
    (h : splitBounds? (c :: s) = some (value, rest)) :
    putChar change c s = attributeStart ++ (mapValue change value ++ '"' :: rest) := by
  unfold putChar mapValue
  rw [h]
  cases hvalue : Rect.read? value with
  | none =>
    dsimp only
    rw [hvalue]
    exact (splitBounds?_eq_some.mp h).2
  | some r =>
    dsimp only
    rw [hvalue]
    simp

theorem splitBounds?_of_ne {c : Char} (hc : c ≠ 'b') (s : List Char) :
    splitBounds? (c :: s) = none := by
  rw [Option.eq_none_iff_forall_ne_some]
  rintro ⟨value, rest⟩ h
  exact hc (List.cons.inj (splitBounds?_eq_some.mp h).2).1

theorem map_cons_of_ne {c : Char} (hc : c ≠ 'b') (s : List Char) :
    mapBoundsChars change (c :: s) = c :: mapBoundsChars change s :=
  putChar_of_none change (splitBounds?_of_ne hc _)

theorem map_append_of_notMem {front : List Char} (h : 'b' ∉ front) (s : List Char) :
    mapBoundsChars change (front ++ s) = front ++ mapBoundsChars change s := by
  induction front with
  | nil => rfl
  | cons c front ih =>
    obtain ⟨hc, hfront⟩ := not_or.mp (mt List.mem_cons.mpr h)
    rw [List.cons_append, map_cons_of_ne change (Ne.symm hc), ih hfront, List.cons_append]

/-- What was put in front of a text that begins without a `b` was there before. -/
theorem exists_of_map_eq {front rest s : List Char} (h : 'b' ∉ front)
    (hs : mapBoundsChars change s = front ++ rest) : ∃ rest', s = front ++ rest' := by
  induction front generalizing s with
  | nil => exact ⟨s, rfl⟩
  | cons x front ih =>
    obtain ⟨hx, hfront⟩ := not_or.mp (mt List.mem_cons.mpr h)
    cases s with
    | nil => cases hs
    | cons c s =>
      cases hmatch : splitBounds? (c :: mapBoundsChars change s) with
      | some found =>
        rw [mapBoundsChars_cons, putChar_of_some change hmatch] at hs
        exact absurd (List.cons.inj hs).1 hx
      | none =>
        rw [mapBoundsChars_cons, putChar_of_none change hmatch] at hs
        obtain ⟨rfl, htail⟩ := List.cons.inj hs
        obtain ⟨rest', rfl⟩ := ih hfront htail
        exact ⟨rest', rfl⟩

theorem b_notMem {value : List Char} (h : IsCorners value) :
    'b' ∉ attributeStart.tail ++ (value ++ ['"']) := by
  rw [List.mem_append, List.mem_append, not_or, not_or]
  exact ⟨by decide, h.notMem (by decide), by decide⟩

theorem map_bounds {value : List Char} (h : IsCorners value) (rest : List Char) :
    mapBoundsChars change (attributeStart ++ (value ++ '"' :: rest)) =
      attributeStart ++ (mapValue change value ++ '"' :: mapBoundsChars change rest) := by
  have hsplit (rest : List Char) : attributeStart ++ (value ++ '"' :: rest) =
      'b' :: (attributeStart.tail ++ (value ++ ['"']) ++ rest) := by simp [attributeStart]
  rw [hsplit, mapBoundsChars_cons, map_append_of_notMem change (b_notMem h)]
  exact putChar_of_some change (splitBounds?_eq_some.mpr ⟨h, (hsplit _).symm⟩)

theorem map_cons_of_none {c : Char} {s : List Char} (h : splitBounds? (c :: s) = none) :
    mapBoundsChars change (c :: s) = c :: mapBoundsChars change s := by
  refine putChar_of_none change (Option.eq_none_iff_forall_ne_some.mpr ?_)
  rintro ⟨value, rest⟩ hmatch
  obtain ⟨hvalue, heq⟩ := splitBounds?_eq_some.mp hmatch
  obtain ⟨rfl, htail⟩ := List.cons.inj heq
  have hsplit : attributeStart.tail ++ (value ++ '"' :: rest) =
      attributeStart.tail ++ (value ++ ['"']) ++ rest := by simp
  obtain ⟨rest', rfl⟩ := exists_of_map_eq change (b_notMem hvalue) (htail.trans hsplit)
  have hfound : splitBounds? ('b' :: (attributeStart.tail ++ (value ++ ['"']) ++ rest')) =
      some (value, rest') := splitBounds?_eq_some.mpr ⟨hvalue, by simp [attributeStart]⟩
  rw [hfound] at h
  cases h

inductive Cut : List Char → Prop where
  | nil : Cut []
  | char {c : Char} {s : List Char} (hc : splitBounds? (c :: s) = none) (h : Cut s) : Cut (c :: s)
  | bounds {value rest : List Char} (hvalue : IsCorners value) (h : Cut rest) :
      Cut (attributeStart ++ (value ++ '"' :: rest))

theorem cut (s : List Char) : Cut s := by
  induction hn : s.length using Nat.strongRecOn generalizing s with
  | ind n ih =>
    cases s with
    | nil => exact .nil
    | cons c s =>
      cases hmatch : splitBounds? (c :: s) with
      | none => exact .char hmatch (ih s.length (by simp [← hn]) s rfl)
      | some found =>
        obtain ⟨hvalue, heq⟩ := splitBounds?_eq_some.mp hmatch
        rw [heq] at hn ⊢
        refine .bounds hvalue (ih _ ?_ _ rfl)
        simp only [List.length_append, List.length_cons] at hn
        omega

def IsBoundsChar (c : Char) : Prop := IsCornerChar c ∨ c ∈ attributeStart

instance (c : Char) : Decidable (IsBoundsChar c) := inferInstanceAs (Decidable (_ ∨ _))

theorem isCornerChar_of_mem_render {r : Rect} {c : Char} (h : c ∈ r.render.toList) :
    IsCornerChar c := by
  have hnumber (n : Int) (hc : c ∈ (toString n).toList) : IsCornerChar c := by
    obtain hdigit | rfl := Text.mem_toString hc
    · exact Or.inl hdigit
    · decide
  have hpair (x y : Int32) (hc : c ∈ Rect.pairText x y) : IsCornerChar c := by
    simp only [Rect.pairText, List.mem_append, List.mem_cons] at hc
    obtain hc | rfl | hc := hc
    · exact hnumber _ hc
    · decide
    · exact hnumber _ hc
  rw [Rect.toList_render] at h
  simp only [List.mem_cons, List.mem_append, List.not_mem_nil, or_false] at h
  obtain rfl | (hc | rfl | rfl | hc) | rfl := h
  · decide
  · exact hpair _ _ hc
  · decide
  · decide
  · exact hpair _ _ hc
  · decide

theorem forall_mem_mapValue {value : List Char} (h : IsCorners value) :
    ∀ c ∈ mapValue change value, IsCornerChar c := by
  intro c hc
  unfold mapValue at hc
  cases hread : Rect.read? value with
  | none =>
    rw [hread] at hc
    exact h.forall_mem c hc
  | some r =>
    rw [hread] at hc
    exact isCornerChar_of_mem_render hc

theorem mem_map {s : List Char} {c : Char} (h : c ∈ mapBoundsChars change s) :
    c ∈ s ∨ IsBoundsChar c := by
  induction cut s with
  | nil => cases h
  | @char x s hx _ ih =>
    rw [map_cons_of_none change hx] at h
    obtain rfl | h := List.mem_cons.mp h
    · exact Or.inl List.mem_cons_self
    · exact (ih h).imp_left (List.mem_cons_of_mem x)
  | @bounds value rest hvalue _ ih =>
    rw [map_bounds change hvalue] at h
    simp only [List.mem_append, List.mem_cons] at h ⊢
    obtain h | h | rfl | h := h
    · exact Or.inr (Or.inr h)
    · exact Or.inr (Or.inl (forall_mem_mapValue change hvalue c h))
    · exact Or.inr (by decide)
    · exact (ih h).imp_left fun h => Or.inr (Or.inr (Or.inr h))

theorem head?_map (s : List Char) : (mapBoundsChars change s).head? = s.head? := by
  cases cut s with
  | nil => rfl
  | char hc => rw [map_cons_of_none change hc]; rfl
  | bounds hvalue => rw [map_bounds change hvalue]; rfl

theorem getLast?_map (s : List Char) : (mapBoundsChars change s).getLast? = s.getLast? := by
  induction cut s with
  | nil => rfl
  | char hc _ ih => rw [map_cons_of_none change hc, List.getLast?_cons, List.getLast?_cons, ih]
  | bounds hvalue _ ih =>
    rw [map_bounds change hvalue]
    simp only [List.getLast?_append, List.getLast?_cons, ih]
    rfl

/-- A text ends inside of a bounds attribute, or has the whole of it. -/
theorem splitBounds?_append_cases {s t value rest : List Char}
    (h : splitBounds? (s ++ t) = some (value, rest)) :
    (∃ rest', splitBounds? s = some (value, rest')) ∨
      ∃ more, more ≠ [] ∧ s ++ more = attributeStart ++ (value ++ ['"']) ∧ t = more ++ rest := by
  obtain ⟨hvalue, heq⟩ := splitBounds?_eq_some.mp h
  have hsplit (rest : List Char) : attributeStart ++ (value ++ '"' :: rest) =
      attributeStart ++ (value ++ ['"']) ++ rest := by simp
  rw [hsplit] at heq
  obtain ⟨more, hmore, ht⟩ | ⟨more, hs, -⟩ := List.append_eq_append_iff.mp heq
  · by_cases hnil : more = []
    · subst hnil
      rw [List.append_nil] at hmore
      exact Or.inl ⟨[], splitBounds?_eq_some.mpr ⟨hvalue, by rw [hsplit, hmore, List.append_nil]⟩⟩
    · exact Or.inr ⟨more, hnil, hmore.symm, ht⟩
  · exact Or.inl ⟨more, splitBounds?_eq_some.mpr ⟨hvalue, by rw [hsplit, hs]⟩⟩

/-- The text may be cut at a character that bounds attributes do not have. -/
theorem map_append_cons {c : Char} (hc : ¬ IsBoundsChar c) (front back : List Char) :
    mapBoundsChars change (front ++ c :: back) =
      mapBoundsChars change front ++ c :: mapBoundsChars change back := by
  induction cut front with
  | nil =>
    have hne : c ≠ 'b' := by
      rintro rfl
      exact hc (by decide)
    exact map_cons_of_ne change hne back
  | @char x s hx _ ih =>
    have hnone : splitBounds? (x :: (s ++ c :: back)) = none := by
      rw [Option.eq_none_iff_forall_ne_some]
      rintro ⟨value, rest⟩ h
      obtain ⟨rest', hfound⟩ | ⟨more, hne, hmore, heq⟩ :=
        splitBounds?_append_cases (s := x :: s) (t := c :: back) h
      · rw [hx] at hfound
        cases hfound
      · obtain ⟨y, more, rfl⟩ := List.exists_cons_of_ne_nil hne
        obtain ⟨rfl, -⟩ := List.cons.inj heq
        have hvalue := (splitBounds?_eq_some.mp h).1
        have hmem : c ∈ attributeStart ++ (value ++ ['"']) := hmore ▸ by simp
        rw [List.mem_append, List.mem_append] at hmem
        obtain hmem | hmem | hmem := hmem
        · exact hc (Or.inr hmem)
        · exact hc (Or.inl (hvalue.forall_mem c hmem))
        · rw [List.mem_singleton.mp hmem] at hc
          exact hc (by decide)
    rw [List.cons_append, map_cons_of_none change hnone, ih, map_cons_of_none change hx,
      List.cons_append]
  | @bounds value rest hvalue _ ih =>
    have hsplit : attributeStart ++ (value ++ '"' :: rest) ++ c :: back =
        attributeStart ++ (value ++ '"' :: (rest ++ c :: back)) := by simp
    rw [hsplit, map_bounds change hvalue, map_bounds change hvalue, ih]
    simp

theorem map_cons_of_unread {c : Char} {s value rest : List Char}
    (h : splitBounds? (c :: s) = some (value, rest)) (hread : Rect.read? value = none) :
    mapBoundsChars change (c :: s) = c :: mapBoundsChars change s := by
  obtain ⟨hvalue, heq⟩ := splitBounds?_eq_some.mp h
  have hkept : mapValue change value = value := by rw [mapValue, hread]; rfl
  have hs : s = attributeStart.tail ++ (value ++ ['"']) ++ rest := by
    rw [(List.cons.inj heq).2]
    simp [attributeStart]
  rw [heq, map_bounds change hvalue, hkept, hs, map_append_of_notMem change (b_notMem hvalue),
    (List.cons.inj heq).1]
  simp [attributeStart]

/-- No bounds with a rectangle begin in the text in front, be it that they end in the one behind. -/
def Unfound : List Char → List Char → Prop
  | [], _ => True
  | c :: front, back =>
    (splitBounds? (c :: (front ++ back)) >>= fun found => Rect.read? found.1) = none ∧
      Unfound front back

instance decidableUnfound : (front back : List Char) → Decidable (Unfound front back)
  | [], _ => inferInstanceAs (Decidable True)
  | _ :: front, back =>
    have := decidableUnfound front back
    inferInstanceAs (Decidable (_ = none ∧ Unfound front back))

theorem map_append_of_unfound {front back : List Char} (h : Unfound front back) :
    mapBoundsChars change (front ++ back) = front ++ mapBoundsChars change back := by
  induction front with
  | nil => rfl
  | cons c front ih =>
    have hfirst : mapBoundsChars change (c :: (front ++ back)) =
        c :: mapBoundsChars change (front ++ back) := by
      cases hmatch : splitBounds? (c :: (front ++ back)) with
      | none => exact map_cons_of_none change hmatch
      | some found =>
        have hread := h.1
        rw [hmatch, Option.bind_eq_bind, Option.bind_some] at hread
        exact map_cons_of_unread change hmatch hread
    rw [List.cons_append, hfirst, ih h.2, List.cons_append]

theorem map_of_unfound {s : List Char} (h : Unfound s []) : mapBoundsChars change s = s := by
  have hmap := map_append_of_unfound change h
  have hnil : mapBoundsChars change [] = [] := rfl
  rwa [List.append_nil, hnil, List.append_nil] at hmap

theorem map_of_notMem {s : List Char} (h : '"' ∉ s) : mapBoundsChars change s = s := by
  induction cut s with
  | nil => rfl
  | char hc _ ih => rw [map_cons_of_none change hc, ih (mt (List.mem_cons_of_mem _) h)]
  | bounds => simp at h

end Replay.Xml.Rescale
