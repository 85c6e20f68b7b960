import Replay.Instant.Reader
import Replay.Proofs.Instant.Calendar
import Replay.Proofs.Text.Digits
set_option autoImplicit false

namespace Replay.Instant

/-- A point in time within the calendar, with leap seconds at the end of minutes. -/
structure Proper (t : Instant) : Prop where
  nano_lt : t.nano < 2 * billion
  leap : billion ≤ t.nano → t.second % 60 = 59
  year : Reader.isYear (Date.ofDays (t.second / 86400)).year = true

namespace Reader

open Text

theorem trimStart_cons {c : Char} (h : isBlank c = false) (s : List Char) :
    trimStart (c :: s) = c :: s := List.dropWhile_cons_of_neg (by simp [h])

theorem endsDigits_cons {c : Char} (h : c.isDigit = false) (s : List Char) :
    EndsDigits (c :: s) := by
  rintro x ⟨⟩
  exact h

theorem digits?_append {width : Nat} {digits rest : List Char} (hne : digits ≠ [])
    (hlength : digits.length ≤ width) (hdigits : ∀ c ∈ digits, c.isDigit)
    (hrest : EndsDigits rest) :
    digits? width (digits ++ rest) = some (natOfDigits digits, rest) := by
  have htake : ((digits ++ rest).takeWhile Char.isDigit).take width = digits := by
    rw [(takeWhile_digits hdigits hrest).1, List.take_of_length_le hlength]
  unfold digits?
  dsimp only
  rw [htake, List.drop_left, if_neg (by simpa using hne)]

theorem field?_append {low high n : Nat} (hlow : low ≤ n) (hhigh : n ≤ high) (hn : n < 100)
    {rest : List Char} (hrest : EndsDigits rest) :
    field? low high ((zeroPadded 2 n).toList ++ rest) = some (n, rest) := by
  have hdigits : ∀ c ∈ (zeroPadded 2 n).toList, c.isDigit := fun c => isDigit_of_mem_zeroPadded
  have hlength : (zeroPadded 2 n).toList.length = 2 := length_zeroPadded (by decide) hn
  have htrim : trimStart ((zeroPadded 2 n).toList ++ rest) = (zeroPadded 2 n).toList ++ rest := by
    obtain ⟨c, s, hc, hdigit⟩ := exists_digit_zeroPadded 2 n
    rw [hc, List.cons_append]
    exact trimStart_cons (isBlank_of_isDigit hdigit) _
  rw [field?, htrim, digits?_append (zeroPadded_ne_nil 2 n) (Nat.le_of_eq hlength) hdigits hrest,
    natOfDigits_zeroPadded]
  simp [hlow, hhigh]

theorem mark?_cons {c : Char} (hc : isBlank c = false) (s : List Char) :
    mark? c (c :: s) = some s := by
  rw [mark?, trimStart_cons hc]
  exact stripStart?_eq_some.mpr rfl

theorem manyDigits?_append {digits rest : List Char} (hne : digits ≠ [])
    (hdigits : ∀ c ∈ digits, c.isDigit) (hrest : EndsDigits rest)
    (hvalue : natOfDigits digits < 0x8000000000000000) :
    manyDigits? (digits ++ rest) = some (natOfDigits digits, rest) := by
  have hlength : digits.length ≤ (digits ++ rest).length := by simp
  rw [manyDigits?, digits?_append hne hlength hdigits hrest]
  simp [hvalue]

theorem year?_append {y : Int} (hy : isYear y) {rest : List Char} (hrest : EndsDigits rest) :
    year? ((Date.renderYear y).toList ++ rest) = some (y, rest) := by
  obtain ⟨hlow, hhigh⟩ : -262143 ≤ y ∧ y ≤ 262142 := by simpa [isYear] using hy
  have hsigned : manyDigits? ((zeroPadded 4 y.natAbs).toList ++ rest) = some (y.natAbs, rest) := by
    have hvalue := natOfDigits_zeroPadded 4 y.natAbs
    have hread := manyDigits?_append (zeroPadded_ne_nil 4 y.natAbs)
      (fun c => isDigit_of_mem_zeroPadded) hrest (by omega)
    rwa [hvalue] at hread
  unfold Date.renderYear
  split
  · next hshort =>
    have hdigits : ∀ c ∈ (zeroPadded 4 y.toNat).toList, c.isDigit :=
      fun c => isDigit_of_mem_zeroPadded
    have hlength : (zeroPadded 4 y.toNat).toList.length = 4 :=
      length_zeroPadded (by decide) (by omega)
    have hread := digits?_append (zeroPadded_ne_nil 4 y.toNat) (Nat.le_of_eq hlength) hdigits hrest
    rw [natOfDigits_zeroPadded] at hread
    obtain ⟨c, s, hc, hdigit⟩ := exists_digit_zeroPadded 4 y.toNat
    rw [hc, List.cons_append] at hread ⊢
    unfold year?
    rw [trimStart_cons (isBlank_of_isDigit hdigit)]
    split
    · next heq =>
      rw [(List.cons.inj heq).1] at hdigit
      cases hdigit
    · next heq =>
      rw [(List.cons.inj heq).1] at hdigit
      cases hdigit
    · have hy : (y.toNat : Int) = y := by omega
      rw [hread]
      simp [hy]
  · next hlong =>
    by_cases hneg : y < 0
    · have hy : -(y.natAbs : Int) = y := by omega
      have htext : ("-" ++ zeroPadded 4 y.natAbs).toList ++ rest =
          '-' :: ((zeroPadded 4 y.natAbs).toList ++ rest) := by simp
      rw [if_pos hneg, htext, year?, trimStart_cons (by decide)]
      simp only [hsigned, Option.map_some, hy]
    · have hy : (y.natAbs : Int) = y := by omega
      have htext : ("+" ++ zeroPadded 4 y.natAbs).toList ++ rest =
          '+' :: ((zeroPadded 4 y.natAbs).toList ++ rest) := by simp
      rw [if_neg hneg, htext, year?, trimStart_cons (by decide)]
      simp only [hsigned, Option.map_some, hy]

theorem date?_append {days : Int} (hyear : isYear (Date.ofDays days).year) {rest : List Char}
    (hrest : EndsDigits rest) :
    date? ((Date.ofDays days).render.toList ++ rest) = some (Date.ofDays days, rest) := by
  obtain ⟨hmonth, hmonth', hday, hday'⟩ := Date.day_le_daysInMonth days
  have hlength : Date.daysInMonth (Date.ofDays days).year (Date.ofDays days).month ≤ 31 := by
    unfold Date.daysInMonth
    split
    · split <;> decide
    · split <;> decide
  have htext : (Date.ofDays days).render.toList ++ rest =
      (Date.renderYear (Date.ofDays days).year).toList ++ '-' ::
        ((zeroPadded 2 (Date.ofDays days).month).toList ++ '-' ::
          ((zeroPadded 2 (Date.ofDays days).day).toList ++ rest)) := by
    simp [Date.render]
  have hreadYear (s : List Char) := year?_append hyear (@endsDigits_cons '-' rfl s)
  have hreadMonth (s : List Char) :=
    field?_append hmonth hmonth' (by omega) (@endsDigits_cons '-' rfl s)
  have hreadDay := field?_append hday (Nat.le_trans hday' hlength) (by omega) hrest
  have hdash (s : List Char) : mark? '-' ('-' :: s) = some s := mark?_cons (by decide) s
  rw [htext]
  unfold date?
  simp only [hreadYear, hreadMonth, hreadDay, hdash, Option.bind_eq_bind, Option.bind_some]
  rw [if_pos (by simp [hyear, hday'])]

theorem fraction?_append {nano : Nat} (hnano : nano < billion) {c : Char} (hc : c.isDigit = false)
    (hpoint : c ≠ '.') (rest : List Char) :
    fraction? ((renderFraction nano).toList ++ c :: rest) = some (nano, c :: rest) := by
  have hbillion : billion = 1000000000 := rfl
  -- A group of digits that is not too long stands for their number of billionths.
  have hgroup {width n : Nat} (hwidth : 0 < width) (hmax : width ≤ 9) (hn : n < 10 ^ width) :
      fraction? (("." ++ zeroPadded width n).toList ++ c :: rest) =
        some (n * Nat.pow 10 (9 - width), c :: rest) := by
    have hdigits : ∀ d ∈ (zeroPadded width n).toList, d.isDigit :=
      fun d => isDigit_of_mem_zeroPadded
    have hlength := length_zeroPadded hwidth hn
    obtain ⟨htake, hdrop⟩ := takeWhile_digits hdigits (endsDigits_cons hc rest)
    have htext : ("." ++ zeroPadded width n).toList ++ c :: rest =
        '.' :: ((zeroPadded width n).toList ++ c :: rest) := by simp
    rw [htext, fraction?, htake, hdrop,
      List.take_of_length_le (Nat.le_trans (Nat.le_of_eq hlength) hmax), hlength,
      natOfDigits_zeroPadded, if_neg (by simpa using zeroPadded_ne_nil width n)]
  unfold renderFraction
  split
  · next hzero =>
    rw [hzero]
    change fraction? (c :: rest) = _
    unfold fraction?
    split
    · next heq => exact absurd (List.cons.inj heq).1 hpoint
    · rfl
  · split
    · rw [hgroup (by decide) (by decide) (by omega)]
      have hexact : nano / 1000000 * Nat.pow 10 (9 - 3) = nano := by
        change nano / 1000000 * 1000000 = nano
        omega
      rw [hexact]
    · split
      · rw [hgroup (by decide) (by decide) (by omega)]
        have hexact : nano / 1000 * Nat.pow 10 (9 - 6) = nano := by
          change nano / 1000 * 1000 = nano
          omega
        rw [hexact]
      · rw [hgroup (by decide) (by decide) (by omega)]
        have hexact : nano * Nat.pow 10 (9 - 9) = nano := Nat.mul_one nano
        rw [hexact]

theorem endsDigits_fraction (nano : Nat) (rest : List Char) :
    EndsDigits ((renderFraction nano).toList ++ 'Z' :: rest) := by
  have hpoint (digits : String) : EndsDigits (("." ++ digits).toList ++ 'Z' :: rest) := by
    rw [String.toList_append]
    exact endsDigits_cons rfl _
  unfold renderFraction
  split
  · exact endsDigits_cons rfl rest
  · split
    · exact hpoint _
    · split
      · exact hpoint _
      · exact hpoint _

theorem time?_append {seconds nano : Nat} (hseconds : seconds < 86400) (hnano : nano < 2 * billion)
    (hleap : billion ≤ nano → seconds % 60 = 59) (rest : List Char) :
    time? ((zeroPadded 2 (seconds / 3600)).toList ++ ':' ::
      ((zeroPadded 2 (seconds / 60 % 60)).toList ++ ':' ::
        ((zeroPadded 2 (seconds % 60 + nano / billion)).toList ++
          ((renderFraction (nano % billion)).toList ++ 'Z' :: rest)))) =
      some ((seconds, nano), 'Z' :: rest) := by
  have hquotient : nano / billion = 0 ∧ nano % billion = nano ∨
      nano / billion = 1 ∧ nano % billion + billion = nano ∧ seconds % 60 = 59 := by
    unfold billion at *
    omega
  have hmark (s : List Char) : mark? ':' (':' :: s) = some s := mark?_cons (by decide) s
  have hhour (s : List Char) : field? 0 23 ((zeroPadded 2 (seconds / 3600)).toList ++ ':' :: s) =
      some (seconds / 3600, ':' :: s) :=
    field?_append (Nat.zero_le _) (by omega) (by omega) (endsDigits_cons rfl s)
  have hminute (s : List Char) :
      field? 0 59 ((zeroPadded 2 (seconds / 60 % 60)).toList ++ ':' :: s) =
        some (seconds / 60 % 60, ':' :: s) :=
    field?_append (Nat.zero_le _) (by omega) (by omega) (endsDigits_cons rfl s)
  have hsecond : field? 0 60 ((zeroPadded 2 (seconds % 60 + nano / billion)).toList ++
      ((renderFraction (nano % billion)).toList ++ 'Z' :: rest)) =
        some (seconds % 60 + nano / billion,
          (renderFraction (nano % billion)).toList ++ 'Z' :: rest) :=
    field?_append (Nat.zero_le _) (by omega) (by omega) (endsDigits_fraction _ rest)
  have hfraction : fraction? ((renderFraction (nano % billion)).toList ++ 'Z' :: rest) =
      some (nano % billion, 'Z' :: rest) :=
    fraction?_append (Nat.mod_lt _ (by decide)) rfl (by decide) rest
  unfold time?
  simp only [hhour, hminute, hsecond, hmark, hfraction, Option.bind_eq_bind, Option.bind_some]
  obtain ⟨hzero, hsame⟩ | ⟨hone, hmore, hlast⟩ := hquotient
  · have hne : ¬ seconds % 60 = 60 := by omega
    have hsum : seconds / 3600 * 3600 + seconds / 60 % 60 * 60 + seconds % 60 = seconds := by omega
    rw [hzero, hsame, Nat.add_zero, if_neg hne, hsum]
    rfl
  · have hsum : seconds / 3600 * 3600 + seconds / 60 % 60 * 60 + 59 = seconds := by omega
    rw [hone, hlast, if_pos rfl, hsum, Nat.add_comm billion, hmore]
    rfl

end Reader

/-- What is written for a point in time is read as that point. -/
theorem parse?_render {t : Instant} (ht : t.Proper) : parse? t.render = some t := by
  have hsecond : ((t.second % 86400).toNat : Int) = t.second % 86400 := by omega
  have hleap (h : billion ≤ t.nano) : (t.second % 86400).toNat % 60 = 59 := by
    have hlast := ht.leap h
    omega
  have htext : t.render.toList = (Date.ofDays (t.second / 86400)).render.toList ++ 'T' ::
      ((Text.zeroPadded 2 ((t.second % 86400).toNat / 3600)).toList ++ ':' ::
        ((Text.zeroPadded 2 ((t.second % 86400).toNat / 60 % 60)).toList ++ ':' ::
          ((Text.zeroPadded 2 ((t.second % 86400).toNat % 60 + t.nano / billion)).toList ++
            ((renderFraction (t.nano % billion)).toList ++ ['Z'])))) := by
    simp [render]
  have hdate := Reader.date?_append ht.year (@Reader.endsDigits_cons 'T' rfl
    ((Text.zeroPadded 2 ((t.second % 86400).toNat / 3600)).toList ++ ':' ::
      ((Text.zeroPadded 2 ((t.second % 86400).toNat / 60 % 60)).toList ++ ':' ::
        ((Text.zeroPadded 2 ((t.second % 86400).toNat % 60 + t.nano / billion)).toList ++
          ((renderFraction (t.nano % billion)).toList ++ ['Z'])))))
  have htime := Reader.time?_append (by omega) ht.nano_lt hleap []
  have hoffset : Reader.offset? ['Z'] = some (0, []) := rfl
  have hsum : (t.second / 86400) * 86400 + (t.second % 86400).toNat - 0 = t.second := by omega
  rw [parse?, htext]
  unfold Reader.instant?
  simp only [hdate, Reader.dateEnd?, htime, hoffset, Option.bind_eq_bind, Option.bind_some,
    Date.toDays_ofDays, hsum]
  rw [if_pos (by simp [ht.year])]

namespace Reader

theorem nano_of_fraction {s rest : List Char} {nano : Nat} (h : fraction? s = some (nano, rest)) :
    nano < billion := by
  unfold fraction? at h
  split at h
  · next s =>
    dsimp only at h
    split at h
    · cases h
    · obtain ⟨rfl, -⟩ := Prod.mk.inj (Option.some.inj h)
      have hdigits : ∀ c ∈ (s.takeWhile Char.isDigit).take 9, c.isDigit := fun c hc =>
        List.all_eq_true.mp List.all_takeWhile c (List.mem_of_mem_take hc)
      have hlength : ((s.takeWhile Char.isDigit).take 9).length ≤ 9 := List.length_take_le 9 _
      have hpow : 10 ^ ((s.takeWhile Char.isDigit).take 9).length *
          10 ^ (9 - ((s.takeWhile Char.isDigit).take 9).length) = billion := by
        rw [← Nat.pow_add, Nat.add_sub_cancel' hlength]
        rfl
      rw [← hpow]
      exact Nat.mul_lt_mul_of_pos_right (Text.natOfDigits_lt hdigits) (Nat.pow_pos (by decide))
  · obtain ⟨rfl, -⟩ := Prod.mk.inj (Option.some.inj h)
    decide

theorem leap_of_time {s rest : List Char} {second nano : Nat}
    (h : time? s = some ((second, nano), rest)) :
    nano < 2 * billion ∧ (billion ≤ nano → second % 60 = 59) := by
  unfold time? at h
  simp only [Option.bind_eq_bind, Option.bind_eq_some_iff, Prod.exists, Option.some.injEq,
    Option.pure_def] at h
  obtain ⟨hour, s, -, s, -, minute, s, -, s, -, digits, s, -, fraction, s, hfraction, h⟩ := h
  have hlt := nano_of_fraction hfraction
  split at h
  · obtain ⟨hpair, -⟩ := Prod.mk.inj h
    obtain ⟨rfl, rfl⟩ := Prod.mk.inj hpair
    exact ⟨by omega, fun _ => by omega⟩
  · obtain ⟨hpair, -⟩ := Prod.mk.inj h
    obtain ⟨rfl, rfl⟩ := Prod.mk.inj hpair
    exact ⟨by omega, fun hle => by omega⟩

theorem clock_minutes {s rest : List Char} {n : Nat} (h : clock? s = some (n, rest)) :
    n % 60 = 0 := by
  unfold clock? at h
  split at h
  · split at h
    · dsimp only at h
      split at h
      · obtain ⟨rfl, -⟩ := Prod.mk.inj (Option.some.inj h)
        omega
      · cases h
    · cases h
  · cases h

theorem offset_minutes {s rest : List Char} {offset : Int} (h : offset? s = some (offset, rest)) :
    offset % 60 = 0 := by
  have hclock {f : Nat → Int} (hf : ∀ n, n % 60 = 0 → f n % 60 = 0) {s : List Char}
      (h : (clock? s).map (fun found => (f found.1, found.2)) = some (offset, rest)) :
      offset % 60 = 0 := by
    obtain ⟨⟨n, rest'⟩, hn, h⟩ := Option.map_eq_some_iff.mp h
    obtain ⟨rfl, -⟩ := Prod.mk.inj h
    exact hf n (clock_minutes hn)
  unfold offset? at h
  split at h
  · obtain ⟨rfl, -⟩ := Prod.mk.inj (Option.some.inj h)
    rfl
  · obtain ⟨rfl, -⟩ := Prod.mk.inj (Option.some.inj h)
    rfl
  · exact hclock (f := fun n => n) (fun n hn => by omega) h
  · exact hclock (f := fun n => -n) (fun n hn => by omega) h
  · exact hclock (f := fun n => -n) (fun n hn => by omega) h
  · split at h
    · obtain ⟨rfl, -⟩ := Prod.mk.inj (Option.some.inj h)
      rfl
    · cases h
  · cases h

end Reader

/-- What can be read is a point within the calendar. -/
theorem proper_of_parse {s : String} {t : Instant} (h : parse? s = some t) : t.Proper := by
  unfold parse? Reader.instant? at h
  simp only [Option.bind_eq_bind, Option.bind_eq_some_iff, Prod.exists] at h
  obtain ⟨date, s, -, s, -, second, nano, s, htime, offset, s, hoffset, h⟩ := h
  obtain ⟨hnano, hleap⟩ := Reader.leap_of_time htime
  have hminutes := Reader.offset_minutes hoffset
  split at h
  · next hyear =>
    obtain rfl := Option.some.inj h
    refine ⟨hnano, fun hle => ?_, (Bool.and_eq_true_iff.mp hyear).2⟩
    have hlast := hleap hle
    dsimp only
    omega
  · cases h

end Replay.Instant
