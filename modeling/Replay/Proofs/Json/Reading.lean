import Replay.Json.Printer
import Replay.Json.Reader
import Replay.Proofs.Text.Digits
set_option autoImplicit false

/-!
Reading JSON text that was written. A value without floating-point numbers, whose integers have 64
bits and which is not nested too deeply (`Json.Fits`, `Json.Integral`), comes back with the members
of its objects in order (`Json.parse?_render`).
-/

namespace Replay

def Number.InRange : Number → Prop
  | .integer n => -0x8000000000000000 ≤ n ∧ n < 0x10000000000000000
  | .real _ => True

namespace Json

/-- Values within a depth of nesting, with integers of 64 bits. -/
inductive Fits : Nat → Json → Prop where
  | null {depth : Nat} : Fits depth .null
  | bool {depth : Nat} {b : Bool} : Fits depth (.bool b)
  | number {depth : Nat} {n : Number} (h : n.InRange) : Fits depth (.number n)
  | string {depth : Nat} {s : String} : Fits depth (.string s)
  | array {depth : Nat} {items : List Json} (h : ∀ x ∈ items, Fits depth x) :
      Fits (depth + 1) (.array items)
  | object {depth : Nat} {members : Members} (h : ∀ m ∈ members, Fits depth m.2) :
      Fits (depth + 1) (.object members)

/-- Values all of whose numbers are integers. -/
inductive Integral : Json → Prop where
  | null : Integral .null
  | bool {b : Bool} : Integral (.bool b)
  | integer {n : Int} : Integral (.number (.integer n))
  | string {s : String} : Integral (.string s)
  | array {items : List Json} (h : ∀ x ∈ items, Integral x) : Integral (.array items)
  | object {members : Members} (h : ∀ m ∈ members, Integral m.2) : Integral (.object members)

theorem Fits.mono {depth larger : Nat} (hle : depth ≤ larger) {j : Json} (h : j.Fits depth) :
    j.Fits larger := by
  induction h generalizing larger with
  | null => exact .null
  | bool => exact .bool
  | number h => exact .number h
  | string => exact .string
  | array _ ih =>
    cases larger with
    | zero => cases hle
    | succ larger => exact .array fun x hx => ih x hx (Nat.le_of_succ_le_succ hle)
  | object _ ih =>
    cases larger with
    | zero => cases hle
    | succ larger => exact .object fun m hm => ih m hm (Nat.le_of_succ_le_succ hle)

theorem sortedItems_eq (items : List Json) : sortedItems items = items.map sorted := by
  induction items with
  | nil => rfl
  | cons x items ih => rw [sortedItems, ih, List.map_cons]

theorem sortedMembers_eq (members : Members) :
    sortedMembers members = members.map fun (key, x) => (key, x.sorted) := by
  induction members with
  | nil => rfl
  | cons m members ih =>
    obtain ⟨key, x⟩ := m
    rw [sortedMembers, ih, List.map_cons]

end Json

namespace Json.Reader

theorem skipSpace_append {spaces : List Char} (h : ∀ c ∈ spaces, isSpace c) (s : List Char) :
    skipSpace (spaces ++ s) = skipSpace s := List.dropWhile_append_of_pos h

theorem skipSpace_cons {c : Char} (h : isSpace c = false) (s : List Char) :
    skipSpace (c :: s) = c :: s := List.dropWhile_cons_of_neg (by simp [h])

section Strings

theorem escapeChar_cases (c : Char) :
    (∃ e, e ≠ 'u' ∧ escapeChar c = ['\\', e] ∧ escaped? e = some c) ∨
      (∃ a b, escapeChar c = ['\\', 'u', '0', '0', a, b] ∧ hex4? '0' '0' a b = some c.toNat ∧
        single? c.toNat = some c) ∨
      (escapeChar c = [c] ∧ c ≠ '"' ∧ c ≠ '\\' ∧ 0x20 ≤ c.toNat) := by
  have hunits : ∀ n < 0x20, hex4? '0' '0' (hexDigit (n / 16)) (hexDigit n) = some n := by decide
  unfold escapeChar
  split
  · exact Or.inl ⟨'"', by decide, rfl, rfl⟩
  · exact Or.inl ⟨'\\', by decide, rfl, rfl⟩
  · exact Or.inl ⟨'b', by decide, rfl, rfl⟩
  · exact Or.inl ⟨'f', by decide, rfl, rfl⟩
  · exact Or.inl ⟨'n', by decide, rfl, rfl⟩
  · exact Or.inl ⟨'r', by decide, rfl, rfl⟩
  · exact Or.inl ⟨'t', by decide, rfl, rfl⟩
  · next hquote hbackslash _ _ _ _ _ =>
    split
    · next hlow =>
      have hsingle : single? c.toNat = some c := by
        rw [single?, if_neg (by omega), Char.ofNat_toNat]
      exact Or.inr (Or.inl ⟨_, _, rfl, hunits c.toNat hlow, hsingle⟩)
    · next hlow => exact Or.inr (Or.inr ⟨rfl, hquote, hbackslash, Nat.le_of_not_lt hlow⟩)

theorem pair?_of_single {n low : Nat} {c : Char} (h : single? n = some c) : pair? n low = none := by
  unfold single? at h
  split at h
  · cases h
  · next hno => exact if_neg fun hpair => hno ⟨hpair.1, by omega⟩

variable (rest : List Char)

def body (text : List Char) : List Char := text.flatMap escapeChar ++ '"' :: rest

theorem body_cons (c : Char) (text : List Char) :
    body rest (c :: text) = escapeChar c ++ body rest text := by
  rw [body, List.flatMap_cons, List.append_assoc, body]

theorem stringBody_unit_alone {c a b : Char} (hc : escapeChar c = ['\\', 'u', '0', '0', a, b])
    (hunit : hex4? '0' '0' a b = some c.toNat) (hsingle : single? c.toNat = some c)
    (done : List Char) {tail : List Char} (htail : ∀ s, tail ≠ '\\' :: 'u' :: s) :
    stringBody done (escapeChar c ++ tail) = stringBody (c :: done) tail := by
  have happ : escapeChar c ++ tail = '\\' :: 'u' :: '0' :: '0' :: a :: b :: tail := by
    rw [hc]
    rfl
  rw [happ, stringBody.eq_4 _ _ _ _ _ _ fun _ _ _ _ _ => htail _, hunit, Option.bind_eq_bind,
    Option.bind_some, hsingle]

/-- A code unit is read alone or together with the one behind it, which comes to the same. -/
theorem stringBody_unit {c a b : Char} (hc : escapeChar c = ['\\', 'u', '0', '0', a, b])
    (hunit : hex4? '0' '0' a b = some c.toNat) (hsingle : single? c.toNat = some c)
    (done text : List Char) :
    stringBody done (escapeChar c ++ body rest text) = stringBody (c :: done) (body rest text) := by
  induction text generalizing c a b done with
  | nil => exact stringBody_unit_alone hc hunit hsingle done (by simp [body])
  | cons x text ih =>
    rw [body_cons]
    obtain ⟨e, he, hx, -⟩ | ⟨a', b', hx, hunit', hsingle'⟩ | ⟨hx, -, hbackslash, -⟩ :=
      escapeChar_cases x
    · refine stringBody_unit_alone hc hunit hsingle done fun _ heq => he ?_
      rw [hx] at heq
      exact (List.cons.inj (List.cons.inj heq).2).1
    · have happ : escapeChar c ++ (escapeChar x ++ body rest text) =
          '\\' :: 'u' :: '0' :: '0' :: a :: b ::
            '\\' :: 'u' :: '0' :: '0' :: a' :: b' :: body rest text := by
        rw [hc, hx]
        rfl
      rw [ih hx hunit' hsingle' (c :: done), happ, stringBody.eq_3, hunit, hunit']
      simp only [pair?_of_single hsingle, hsingle, hsingle']
    · refine stringBody_unit_alone hc hunit hsingle done fun _ heq => hbackslash ?_
      rw [hx] at heq
      exact (List.cons.inj heq).1

theorem stringBody_written (done text : List Char) :
    stringBody done (body rest text) = some (done.reverse ++ text, rest) := by
  induction text generalizing done with
  | nil => simp [body, stringBody]
  | cons c text ih =>
    have hnext : stringBody done (escapeChar c ++ body rest text) =
        stringBody (c :: done) (body rest text) := by
      obtain ⟨e, he, hc, hescaped⟩ | ⟨a, b, hc, hunit, hsingle⟩ | ⟨hc, hquote, hbackslash, hlow⟩ :=
        escapeChar_cases c
      · rw [hc, List.cons_append, List.cons_append, List.nil_append,
          stringBody.eq_5 _ _ _ (fun _ _ _ _ _ _ _ _ _ h => absurd h he)
            (fun _ _ _ _ _ h => absurd h he), hescaped]
      · exact stringBody_unit rest hc hunit hsingle done text
      · rw [hc, List.cons_append, List.nil_append,
          stringBody.eq_6 _ _ _ hquote (fun _ _ _ _ _ _ _ _ _ h => absurd h hbackslash)
            (fun _ _ _ _ _ h => absurd h hbackslash) (fun _ _ h => absurd h hbackslash)]
        simp [hbackslash, Nat.not_lt.mpr hlow]
    rw [body_cons, hnext, ih]
    simp

theorem string?_written (s : String) : string? (body rest s.toList) = some (s, rest) := by
  rw [string?, stringBody_written]
  simp

theorem toList_quote (s : String) : (quote s).toList ++ rest = '"' :: body rest s.toList := by
  simp [quote, body]

end Strings

section Numbers

def EndsNumber (s : List Char) : Prop :=
  ∀ c ∈ s.head?, c.isDigit = false ∧ c ≠ '.' ∧ c ≠ 'e' ∧ c ≠ 'E'

theorem splitFraction?_none {s : List Char} (h : EndsNumber s) :
    splitFraction? s = some (none, s) := by
  cases s with
  | nil => rfl
  | cons c s =>
    have hc : c ≠ '.' := (h c rfl).2.1
    unfold splitFraction?
    split
    · next heq => exact absurd (List.cons.inj heq).1 hc
    · rfl

theorem splitExponent?_none {s : List Char} (h : EndsNumber s) :
    splitExponent? s = some (none, s) := by
  cases s with
  | nil => rfl
  | cons c s =>
    obtain ⟨-, -, hlower, hupper⟩ := h c rfl
    rw [splitExponent?.eq_def]
    exact if_neg (not_or.mpr ⟨hlower, hupper⟩)

theorem splitNumber?_integer {n : Int} {rest : List Char} (hrest : EndsNumber rest) :
    splitNumber? ((toString n).toList ++ rest) =
      some (⟨decide (n < 0), Nat.toDigits 10 n.natAbs, none, none⟩, rest) := by
  have hdigits : ∀ c ∈ Nat.toDigits 10 n.natAbs, c.isDigit := fun c => Text.isDigit_of_mem_toDigits
  obtain ⟨htake, hdrop⟩ := Text.takeWhile_digits hdigits fun c hc => (hrest c hc).1
  have hzero : ((Nat.toDigits 10 n.natAbs).isEmpty ||
      ((Nat.toDigits 10 n.natAbs).head? == some '0' &&
        decide (1 < (Nat.toDigits 10 n.natAbs).length))) = false := by
    rw [Bool.or_eq_false_iff, Bool.and_eq_false_iff]
    refine ⟨by simp [Nat.toDigits_ne_nil], ?_⟩
    by_cases hhead : (Nat.toDigits 10 n.natAbs).head? = some '0'
    · exact Or.inr (by rw [Text.toDigits_of_head? hhead]; rfl)
    · exact Or.inl (by simpa using hhead)
  unfold splitNumber?
  split
  next negative unsigned heq =>
  have hsign : negative = decide (n < 0) ∧ unsigned = Nat.toDigits 10 n.natAbs ++ rest := by
    rw [Text.toList_toString] at heq
    by_cases hn : n < 0
    · rw [if_pos hn] at heq
      obtain ⟨rfl, rfl⟩ := Prod.mk.inj heq
      exact ⟨(decide_eq_true hn).symm, rfl⟩
    · rw [if_neg hn] at heq
      split at heq
      · next s hs =>
        obtain ⟨c, digits, hc⟩ := List.exists_cons_of_ne_nil
          (Nat.toDigits_ne_nil (b := 10) (n := n.natAbs))
        rw [hc] at hs hdigits
        have hminus : '-'.isDigit := (List.cons.inj hs).1 ▸ hdigits c List.mem_cons_self
        cases hminus
      · obtain ⟨rfl, rfl⟩ := Prod.mk.inj heq
        exact ⟨(decide_eq_false hn).symm, rfl⟩
  obtain ⟨rfl, rfl⟩ := hsign
  dsimp only
  rw [htake, hdrop, hzero, splitFraction?_none hrest]
  simp [splitExponent?_none hrest]

theorem number?_integer {n : Int} (hn : (Number.integer n).InRange) {rest : List Char}
    (hrest : EndsNumber rest) :
    number? ((Number.integer n).render.toList ++ rest) = some (.number (.integer n), rest) := by
  obtain ⟨hlow, hhigh⟩ := hn
  have hvalue : NumberText.value? ⟨decide (n < 0), Nat.toDigits 10 n.natAbs, none, none⟩ =
      some (.integer n) := by
    unfold NumberText.value?
    dsimp only
    rw [Text.natOfDigits_toDigits]
    by_cases hneg : n < 0
    · have habs : -(n.natAbs : Int) = n := by omega
      have hrange : 0 < n.natAbs ∧ n.natAbs ≤ 0x8000000000000000 := by omega
      rw [if_neg (by simp [hneg]), if_pos (by simpa [hneg] using hrange), habs]
    · have habs : (n.natAbs : Int) = n := by omega
      have hrange : n.natAbs < UInt64.size := by
        have hsize : UInt64.size = 0x10000000000000000 := rfl
        omega
      rw [if_pos (by simpa [hneg] using hrange), habs]
  unfold number? Number.render
  rw [splitNumber?_integer hrest, Option.bind_eq_bind, Option.bind_some]
  dsimp only
  rw [hvalue]
  rfl

end Numbers

end Json.Reader

namespace Json

structure Style.Spaced (style : Style) : Prop where
  newline : ∀ depth, ∀ c ∈ (style.newline depth).toList, Reader.isSpace c
  colon : ∃ spaces, style.colon.toList = ':' :: spaces ∧ ∀ c ∈ spaces, Reader.isSpace c

theorem spaced_compact : Style.compact.Spaced where
  newline := by simp [Style.compact]
  colon := ⟨[], rfl, nofun⟩

theorem spaced_pretty : Style.pretty.Spaced where
  newline := by
    intro depth c hc
    simp only [Style.pretty, String.toList_ofList] at hc
    obtain rfl | hc := List.mem_cons.mp hc
    · rfl
    · rw [List.eq_of_mem_replicate hc]
      rfl
  colon := ⟨[' '], rfl, List.all_eq_true.mp rfl⟩

def characters (pieces : List String) : List Char := pieces.flatMap String.toList

@[simp] theorem characters_nil : characters [] = [] := rfl

@[simp] theorem characters_cons (piece : String) (pieces : List String) :
    characters (piece :: pieces) = piece.toList ++ characters pieces := rfl

@[simp] theorem characters_append (a b : List String) :
    characters (a ++ b) = characters a ++ characters b := List.flatMap_append

end Json

namespace Json.Reader

theorem EndsNumber.cons {c : Char} (hc : c.isDigit = false ∧ c ≠ '.' ∧ c ≠ 'e' ∧ c ≠ 'E')
    (s : List Char) : EndsNumber (c :: s) := by
  rintro x ⟨⟩
  exact hc

theorem endsNumber_of_space {spaces : List Char} (h : ∀ c ∈ spaces, isSpace c) {s : List Char}
    (hs : EndsNumber s) : EndsNumber (spaces ++ s) := by
  cases spaces with
  | nil => exact hs
  | cons c spaces =>
    refine EndsNumber.cons ?_ _
    have hc := h c List.mem_cons_self
    simp only [isSpace, Bool.or_eq_true, beq_iff_eq] at hc
    obtain ((rfl | rfl) | rfl) | rfl := hc <;> decide

/-- How the text of a value begins: not like the end of an array or an object, and not with white
space. -/
def BeginsValue (s : List Char) : Prop :=
  ∃ c t, s = c :: t ∧ isSpace c = false ∧ c ≠ ']' ∧ c ≠ '\x7d'

theorem skipSpace_value {spaces s : List Char} (hspaces : ∀ c ∈ spaces, isSpace c)
    (hs : BeginsValue s) : skipSpace (spaces ++ s) = s := by
  obtain ⟨c, t, rfl, hc, -⟩ := hs
  rw [skipSpace_append hspaces, skipSpace_cons hc]

theorem exists_first (n : Int) :
    ∃ c t, (toString n).toList = c :: t ∧ (c.isDigit = true ∨ c = '-') := by
  rw [Text.toList_toString]
  split
  · exact ⟨'-', _, rfl, Or.inr rfl⟩
  · obtain ⟨c, t, hc⟩ := List.exists_cons_of_ne_nil
      (Nat.toDigits_ne_nil (b := 10) (n := n.natAbs))
    exact ⟨c, t, hc, Or.inl (Text.isDigit_of_mem_toDigits (hc ▸ List.mem_cons_self))⟩

theorem beginsValue_pieces (style : Style) (indent : Nat) {j : Json} (hint : j.Integral)
    (rest : List Char) : BeginsValue (characters (pieces style indent j) ++ rest) := by
  cases hint with
  | null => exact ⟨'n', _, rfl, rfl, by decide, by decide⟩
  | @bool b =>
    cases b
    · exact ⟨'f', _, rfl, rfl, by decide, by decide⟩
    · exact ⟨'t', _, rfl, rfl, by decide, by decide⟩
  | @integer n =>
    obtain ⟨c, t, htext, hc⟩ := exists_first n
    refine ⟨c, t ++ rest, ?_, ?_⟩
    · rw [pieces, characters_cons, Number.render, htext]
      simp
    · have hno (x : Char) (hx : x.isDigit = false) (hx' : x ≠ '-') : c ≠ x := by
        rintro rfl
        obtain hc | hc := hc
        · rw [hx] at hc
          cases hc
        · exact hx' hc
      refine ⟨?_, hno _ rfl (by decide), hno _ rfl (by decide)⟩
      simp only [isSpace, Bool.or_eq_false_iff, beq_eq_false_iff_ne]
      exact ⟨⟨⟨hno _ rfl (by decide), hno _ rfl (by decide)⟩, hno _ rfl (by decide)⟩,
        hno _ rfl (by decide)⟩
  | @string s =>
    refine ⟨'"', body rest s.toList, ?_, rfl, by decide, by decide⟩
    rw [pieces, characters_cons, characters_nil, List.append_nil, toList_quote]
  | @array items _ =>
    cases items with
    | nil => exact ⟨'[', _, rfl, rfl, by decide, by decide⟩
    | cons x items =>
      rw [pieces, characters_cons]
      exact ⟨'[', _, rfl, rfl, by decide, by decide⟩
  | @object members _ =>
    cases members with
    | nil => exact ⟨'\x7b', _, rfl, rfl, by decide, by decide⟩
    | cons m members =>
      obtain ⟨key, x⟩ := m
      rw [pieces, characters_cons]
      exact ⟨'\x7b', _, rfl, rfl, by decide, by decide⟩

theorem value?_integer (size depth : Nat) (n : Int) (rest : List Char) :
    value? size depth ((toString n).toList ++ rest) = number? ((toString n).toList ++ rest) := by
  obtain ⟨c, t, htext, hc⟩ := exists_first n
  have hno (x : Char) (hx : x.isDigit = false) (hx' : x ≠ '-') : x ≠ c := by
    rintro rfl
    obtain hc | hc := hc
    · rw [hx] at hc
      cases hc
    · exact hx' hc
  have hnull : Text.stripStart? "null".toList (c :: (t ++ rest)) = none :=
    if_neg (hno 'n' rfl (by decide))
  have htrue : Text.stripStart? "true".toList (c :: (t ++ rest)) = none :=
    if_neg (hno 't' rfl (by decide))
  have hfalse : Text.stripStart? "false".toList (c :: (t ++ rest)) = none :=
    if_neg (hno 'f' rfl (by decide))
  have hfirst (x : Char) (s : List Char) (hx : x ≠ c) : c :: (t ++ rest) ≠ x :: s :=
    fun h => hx (List.cons.inj h).1.symm
  rw [htext, List.cons_append,
    value?.eq_4 _ _ _ (fun s => hfirst '"' s (hno _ rfl (by decide)))
      (fun _ s _ => hfirst '[' s (hno _ rfl (by decide)))
      (fun _ s _ => hfirst '\x7b' s (hno _ rfl (by decide)))]
  rw [hnull, htrue, hfalse]

theorem characters_array (style : Style) (indent : Nat) (x : Json) (xs : List Json)
    (rest : List Char) :
    characters (pieces style indent (.array (x :: xs))) ++ rest =
      '[' :: ((style.newline (indent + 1)).toList ++ (characters (pieces style (indent + 1) x) ++
        (characters (itemPieces style (indent + 1) xs) ++
          ((style.newline indent).toList ++ ']' :: rest)))) := by
  simp [pieces]

theorem characters_object (style : Style) (indent : Nat) (key : String) (x : Json) (ms : Members)
    (rest : List Char) :
    characters (pieces style indent (.object ((key, x) :: ms))) ++ rest =
      '\x7b' :: ((style.newline (indent + 1)).toList ++ ((quote key).toList ++
        (style.colon.toList ++ (characters (pieces style (indent + 1) x) ++
          (characters (memberPieces style (indent + 1) ms) ++
            ((style.newline indent).toList ++ '\x7d' :: rest)))))) := by
  simp [pieces]

theorem array?_of_begins {value : ValueReader} {size : Nat} {s : List Char}
    (hs : BeginsValue (skipSpace s)) : array? value size s = (do
      let (x, rest) ← value (skipSpace s)
      let (xs, rest) ← items value size [x] rest
      return (.array xs, rest)) := by
  obtain ⟨c, t, hct, -, hne, -⟩ := hs
  unfold array?
  split
  · next heq => exact absurd (List.cons.inj (hct.symm.trans heq)).1 hne
  · rfl

theorem object?_of_begins {value : ValueReader} {size : Nat} {s : List Char}
    (hs : BeginsValue (skipSpace s)) : object? value size s = (do
      let (m, rest) ← member? value (skipSpace s)
      let (ms, rest) ← members value size [m] rest
      return (.object (Ordered.ofList ms), rest)) := by
  obtain ⟨c, t, hct, -, -, hne⟩ := hs
  unfold object?
  split
  · next heq => exact absurd (List.cons.inj (hct.symm.trans heq)).1 hne
  · rfl

theorem length_itemPieces (style : Style) (indent : Nat) (xs : List Json) :
    xs.length ≤ (characters (itemPieces style indent xs)).length ∧
      ∀ x ∈ xs, (characters (pieces style indent x)).length ≤
        (characters (itemPieces style indent xs)).length := by
  induction xs with
  | nil => exact ⟨Nat.le_refl _, nofun⟩
  | cons x xs ih =>
    obtain ⟨hcount, hitems⟩ := ih
    have hlength : (characters (itemPieces style indent (x :: xs))).length =
        1 + ((style.newline indent).toList.length + ((characters (pieces style indent x)).length +
          (characters (itemPieces style indent xs)).length)) := by
      simp [itemPieces]
      omega
    refine ⟨by rw [List.length_cons]; omega, ?_⟩
    rintro y (_ | ⟨_, hy⟩)
    · omega
    · have hle := hitems y hy
      omega

theorem length_memberPieces (style : Style) (indent : Nat) (ms : Members) :
    ms.length ≤ (characters (memberPieces style indent ms)).length ∧
      ∀ m ∈ ms, (characters (pieces style indent m.2)).length ≤
        (characters (memberPieces style indent ms)).length := by
  induction ms with
  | nil => exact ⟨Nat.le_refl _, nofun⟩
  | cons m ms ih =>
    obtain ⟨key, x⟩ := m
    obtain ⟨hcount, hmembers⟩ := ih
    have hlength : (characters (memberPieces style indent ((key, x) :: ms))).length =
        1 + ((style.newline indent).toList.length + ((quote key).toList.length +
          (style.colon.toList.length + ((characters (pieces style indent x)).length +
            (characters (memberPieces style indent ms)).length)))) := by
      simp [memberPieces]
      omega
    refine ⟨by rw [List.length_cons]; omega, ?_⟩
    rintro y (_ | ⟨_, hy⟩)
    · dsimp only
      omega
    · have hle := hmembers y hy
      omega

/-- The text of an array bounds the number of its items and the texts of all of them. -/
theorem length_array (style : Style) (indent : Nat) (x : Json) (xs : List Json) :
    xs.length ≤ (characters (pieces style indent (.array (x :: xs)))).length ∧
      ∀ y ∈ x :: xs, (characters (pieces style (indent + 1) y)).length ≤
        (characters (pieces style indent (.array (x :: xs)))).length := by
  have htext := congrArg List.length (characters_array style indent x xs [])
  simp only [List.append_nil, List.length_append, List.length_cons] at htext
  obtain ⟨hcount, hitems⟩ := length_itemPieces style (indent + 1) xs
  refine ⟨by omega, List.forall_mem_cons.mpr ⟨by omega, fun y hy => ?_⟩⟩
  have hle := hitems y hy
  omega

theorem length_object (style : Style) (indent : Nat) (key : String) (x : Json) (ms : Members) :
    ms.length ≤ (characters (pieces style indent (.object ((key, x) :: ms)))).length ∧
      ∀ m ∈ (key, x) :: ms, (characters (pieces style (indent + 1) m.2)).length ≤
        (characters (pieces style indent (.object ((key, x) :: ms)))).length := by
  have htext := congrArg List.length (characters_object style indent key x ms [])
  simp only [List.append_nil, List.length_append, List.length_cons] at htext
  obtain ⟨hcount, hmembers⟩ := length_memberPieces style (indent + 1) ms
  refine ⟨by omega, List.forall_mem_cons.mpr ⟨by dsimp only; omega, fun m hm => ?_⟩⟩
  have hle := hmembers m hm
  omega

section Values

theorem endsNumber_items (style : Style) (indent : Nat) (xs : List Json) {close : List Char}
    (hends : EndsNumber close) :
    EndsNumber (characters (itemPieces style indent xs) ++ close) := by
  cases xs with
  | nil => exact hends
  | cons x xs => exact EndsNumber.cons (by decide) _

theorem endsNumber_members (style : Style) (indent : Nat) (ms : Members) {close : List Char}
    (hends : EndsNumber close) :
    EndsNumber (characters (memberPieces style indent ms) ++ close) := by
  cases ms with
  | nil => exact hends
  | cons m ms => exact EndsNumber.cons (by decide) _

variable {style : Style} (hstyle : style.Spaced) {value : ValueReader} {indent : Nat}
  {close rest : List Char}
include hstyle

theorem items_pieces {xs : List Json} {fuel : Nat} (hfuel : xs.length ≤ fuel)
    (hint : ∀ x ∈ xs, x.Integral)
    (hvalue : ∀ x ∈ xs, ∀ rest, EndsNumber rest →
      value (characters (pieces style indent x) ++ rest) = some (x.sorted, rest))
    (hclose : skipSpace close = ']' :: rest) (hends : EndsNumber close) (done : List Json) :
    items value fuel done (characters (itemPieces style indent xs) ++ close) =
      some (done.reverse ++ xs.map sorted, rest) := by
  induction xs generalizing fuel done with
  | nil => simp [itemPieces, items.eq_1 _ _ _ _ _ hclose]
  | cons x xs ih =>
    obtain _ | fuel := fuel
    · cases hfuel
    have htext : characters (itemPieces style indent (x :: xs)) ++ close =
        ',' :: ((style.newline indent).toList ++ (characters (pieces style indent x) ++
          (characters (itemPieces style indent xs) ++ close))) := by
      simp [itemPieces]
    have hskip := skipSpace_value (hstyle.newline indent)
      (beginsValue_pieces style indent (hint x List.mem_cons_self)
        (characters (itemPieces style indent xs) ++ close))
    rw [htext, items.eq_2 _ _ _ _ _ (skipSpace_cons rfl _), hskip,
      hvalue x List.mem_cons_self _ (endsNumber_items style _ xs hends)]
    dsimp only
    rw [ih (Nat.le_of_succ_le_succ hfuel) (fun y hy => hint y (List.mem_cons_of_mem x hy))
      (fun y hy => hvalue y (List.mem_cons_of_mem x hy))]
    simp

theorem member?_pieces {key : String} {x : Json} (hint : x.Integral)
    (hvalue : value (characters (pieces style indent x) ++ rest) = some (x.sorted, rest)) :
    member? value ((quote key).toList ++ (style.colon.toList ++
      (characters (pieces style indent x) ++ rest))) = some ((key, x.sorted), rest) := by
  obtain ⟨spaces, hcolon, hspaces⟩ := hstyle.colon
  rw [toList_quote, member?, string?_written, hcolon, List.cons_append, Option.bind_eq_bind,
    Option.bind_some]
  dsimp only
  rw [skipSpace_cons rfl]
  simp only [skipSpace_value hspaces (beginsValue_pieces style indent hint rest), hvalue,
    Option.bind_eq_bind, Option.bind_some, Option.pure_def]

theorem members_pieces {ms : Members} {fuel : Nat} (hfuel : ms.length ≤ fuel)
    (hint : ∀ m ∈ ms, m.2.Integral)
    (hvalue : ∀ m ∈ ms, ∀ rest, EndsNumber rest →
      value (characters (pieces style indent m.2) ++ rest) = some (m.2.sorted, rest))
    (hclose : skipSpace close = '\x7d' :: rest) (hends : EndsNumber close) (done : Members) :
    members value fuel done (characters (memberPieces style indent ms) ++ close) =
      some (done.reverse ++ sortedMembers ms, rest) := by
  induction ms generalizing fuel done with
  | nil => simp [memberPieces, members.eq_1 _ _ _ _ _ hclose, sortedMembers]
  | cons m ms ih =>
    obtain ⟨key, x⟩ := m
    obtain _ | fuel := fuel
    · cases hfuel
    have htext : characters (memberPieces style indent ((key, x) :: ms)) ++ close =
        ',' :: ((style.newline indent).toList ++ ((quote key).toList ++ (style.colon.toList ++
          (characters (pieces style indent x) ++
            (characters (memberPieces style indent ms) ++ close))))) := by
      simp [memberPieces]
    have hskip := skipSpace_value (hstyle.newline indent) (s := (quote key).toList ++
      (style.colon.toList ++ (characters (pieces style indent x) ++
        (characters (memberPieces style indent ms) ++ close))))
      ⟨'"', _, toList_quote _ key, rfl, by decide, by decide⟩
    rw [htext, members.eq_2 _ _ _ _ _ (skipSpace_cons rfl _), hskip,
      member?_pieces hstyle (hint (key, x) List.mem_cons_self)
        (hvalue (key, x) List.mem_cons_self _ (endsNumber_members style _ ms hends))]
    dsimp only
    rw [ih (Nat.le_of_succ_le_succ hfuel) (fun y hy => hint y (List.mem_cons_of_mem _ hy))
      (fun y hy => hvalue y (List.mem_cons_of_mem _ hy))]
    simp [sortedMembers]

theorem array?_pieces {x : Json} {xs : List Json} {size : Nat} (hsize : xs.length ≤ size)
    (hint : ∀ y ∈ x :: xs, y.Integral)
    (hvalue : ∀ y ∈ x :: xs, ∀ rest, EndsNumber rest →
      value (characters (pieces style (indent + 1) y) ++ rest) = some (y.sorted, rest)) :
    array? value size ((style.newline (indent + 1)).toList ++
      (characters (pieces style (indent + 1) x) ++
        (characters (itemPieces style (indent + 1) xs) ++
          ((style.newline indent).toList ++ ']' :: rest)))) =
      some ((Json.array (x :: xs)).sorted, rest) := by
  have hends : EndsNumber ((style.newline indent).toList ++ ']' :: rest) :=
    endsNumber_of_space (hstyle.newline indent) (EndsNumber.cons (by decide) rest)
  have hclose : skipSpace ((style.newline indent).toList ++ ']' :: rest) = ']' :: rest := by
    rw [skipSpace_append (hstyle.newline indent), skipSpace_cons rfl]
  have hbegins := beginsValue_pieces style (indent + 1) (hint x List.mem_cons_self)
    (characters (itemPieces style (indent + 1) xs) ++
      ((style.newline indent).toList ++ ']' :: rest))
  have hskip := skipSpace_value (hstyle.newline (indent + 1)) hbegins
  rw [array?_of_begins (hskip.symm ▸ hbegins), hskip,
    hvalue x List.mem_cons_self _ (endsNumber_items style _ xs hends), Option.bind_eq_bind,
    Option.bind_some]
  dsimp only
  rw [items_pieces hstyle hsize (fun y hy => hint y (List.mem_cons_of_mem x hy))
    (fun y hy => hvalue y (List.mem_cons_of_mem x hy)) hclose hends]
  simp [sorted, sortedItems, sortedItems_eq]

theorem object?_pieces {key : String} {x : Json} {ms : Members} {size : Nat}
    (hsize : ms.length ≤ size) (hint : ∀ m ∈ (key, x) :: ms, m.2.Integral)
    (hvalue : ∀ m ∈ (key, x) :: ms, ∀ rest, EndsNumber rest →
      value (characters (pieces style (indent + 1) m.2) ++ rest) = some (m.2.sorted, rest)) :
    object? value size ((style.newline (indent + 1)).toList ++ ((quote key).toList ++
      (style.colon.toList ++ (characters (pieces style (indent + 1) x) ++
        (characters (memberPieces style (indent + 1) ms) ++
          ((style.newline indent).toList ++ '\x7d' :: rest)))))) =
      some ((Json.object ((key, x) :: ms)).sorted, rest) := by
  have hends : EndsNumber ((style.newline indent).toList ++ '\x7d' :: rest) :=
    endsNumber_of_space (hstyle.newline indent) (EndsNumber.cons (by decide) rest)
  have hclose : skipSpace ((style.newline indent).toList ++ '\x7d' :: rest) = '\x7d' :: rest := by
    rw [skipSpace_append (hstyle.newline indent), skipSpace_cons rfl]
  have hbegins : BeginsValue ((quote key).toList ++ (style.colon.toList ++
      (characters (pieces style (indent + 1) x) ++
        (characters (memberPieces style (indent + 1) ms) ++
          ((style.newline indent).toList ++ '\x7d' :: rest))))) :=
    ⟨'"', _, toList_quote _ key, rfl, by decide, by decide⟩
  have hskip := skipSpace_value (hstyle.newline (indent + 1)) hbegins
  have hfirst := hvalue (key, x) List.mem_cons_self _
    (endsNumber_members style (indent + 1) ms hends)
  rw [object?_of_begins (hskip.symm ▸ hbegins), hskip,
    member?_pieces hstyle (hint (key, x) List.mem_cons_self) hfirst, Option.bind_eq_bind,
    Option.bind_some]
  dsimp only
  rw [members_pieces hstyle hsize (fun m hm => hint m (List.mem_cons_of_mem _ hm))
    (fun m hm => hvalue m (List.mem_cons_of_mem _ hm)) hclose hends]
  simp [sorted, sortedMembers]

end Values

/-- A value that was written is read back, with its objects in order. -/
theorem value?_pieces {style : Style} (hstyle : style.Spaced) {depth : Nat} {j : Json}
    (hfits : j.Fits depth) (hint : j.Integral) {size : Nat} (indent : Nat) {rest : List Char}
    (hsize : (characters (pieces style indent j)).length ≤ size) (hrest : EndsNumber rest) :
    value? size depth (characters (pieces style indent j) ++ rest) = some (j.sorted, rest) := by
  induction hfits generalizing indent rest with
  | @null depth => cases depth <;> rfl
  | @bool depth b => cases b <;> cases depth <;> rfl
  | @number depth n hn =>
    cases hint with
    | @integer n =>
      have htext : characters (pieces style indent (.number (.integer n))) ++ rest =
          (toString n).toList ++ rest := by
        rw [pieces, characters_cons, characters_nil, List.append_nil]
        rfl
      rw [htext, value?_integer]
      exact number?_integer hn hrest
  | @string depth s =>
    have htext : characters (pieces style indent (.string s)) ++ rest =
        '"' :: body rest s.toList := by
      rw [pieces, characters_cons, characters_nil, List.append_nil, toList_quote]
    have hstring : value? size depth ('"' :: body rest s.toList) =
        (string? (body rest s.toList)).map fun found => (.string found.1, found.2) := by
      cases depth <;> rfl
    rw [htext, hstring, string?_written]
    rfl
  | @array depth items h ih =>
    cases items with
    | nil => rfl
    | cons x xs =>
      cases hint with
      | array hint =>
        obtain ⟨hcount, hitems⟩ := length_array style indent x xs
        rw [characters_array]
        exact array?_pieces hstyle (by omega) hint fun y hy rest hrest =>
          ih y hy (hint y hy) (indent + 1) (Nat.le_trans (hitems y hy) hsize) hrest
  | @object depth members h ih =>
    cases members with
    | nil => rfl
    | cons m ms =>
      cases hint with
      | object hint =>
        obtain ⟨key, x⟩ := m
        obtain ⟨hcount, hmembers⟩ := length_object style indent key x ms
        rw [characters_object]
        exact object?_pieces hstyle (by omega) hint fun m hm rest hrest =>
          ih m hm (hint m hm) (indent + 1) (Nat.le_trans (hmembers m hm) hsize) hrest

theorem endsNumber_nil : EndsNumber [] := fun _ h => absurd h.symm (Option.some_ne_none _)

theorem skipSpace_pieces (style : Style) {j : Json} (hint : j.Integral) :
    skipSpace (characters (pieces style 0 j)) = characters (pieces style 0 j) := by
  have hskip : skipSpace ([] ++ _) = _ :=
    skipSpace_value (List.forall_mem_nil _) (beginsValue_pieces style 0 hint [])
  rwa [List.nil_append, List.append_nil] at hskip

end Json.Reader

namespace Json

/-- The text of a value is read as that value with its objects in order, in either style. -/
theorem parse?_render {style : Style} (hstyle : style.Spaced) {j : Json} (hfits : j.Fits maxDepth)
    (hint : j.Integral) : parse? (render style j) = some j.sorted := by
  have htext : (render style j).toList = characters (pieces style 0 j) := String.toList_join
  have hread := Reader.value?_pieces hstyle hfits hint 0 (Nat.le_refl _) Reader.endsNumber_nil
  rw [List.append_nil] at hread
  rw [parse?, parseChars?, htext, Reader.skipSpace_pieces style hint, hread]
  rfl

end Json

end Replay
