import Mathlib.Data.List.TakeWhile
import Replay.Proofs.Text.Reading
import Replay.Xml.Attribute
set_option autoImplicit false

namespace Replay.Xml

/-- An attribute in the text of a tag: its key, an equals sign and its value in quotes, with white
space in front of each. -/
structure Spelling where
  lead : List Char := []
  /-- The first character of the key, which may be an equals sign. -/
  first : Char
  more : List Char
  before : List Char := []
  behind : List Char := []
  quote : Char := '"'
  raw : List Char
  isSpace_lead : ∀ c ∈ lead, isSpace c := by
    exact List.all_eq_true.mp (by decide)
  isSpace_before : ∀ c ∈ before, isSpace c := by
    exact List.all_eq_true.mp (by decide)
  isSpace_behind : ∀ c ∈ behind, isSpace c := by
    exact List.all_eq_true.mp (by decide)
  not_isSpace_first : isSpace first = false := by decide
  continues_more : ∀ c ∈ more, (c != '=' && !isSpace c) = true := by
    exact List.all_eq_true.mp (by decide)
  quote_eq : quote = '"' ∨ quote = '\'' := by decide
  quote_notMem : quote ∉ raw := by decide

namespace Spelling

def key (w : Spelling) : List Char := w.first :: w.more

def quoted (w : Spelling) : List Char := w.quote :: (w.raw ++ [w.quote])

def text (w : Spelling) : List Char :=
  w.lead ++ (w.key ++ (w.before ++ '=' :: (w.behind ++ w.quoted)))

def front (w : Spelling) : List Char := w.lead ++ (w.key ++ (w.before ++ '=' :: w.behind))

theorem text_append (w : Spelling) (rest : List Char) :
    w.text ++ rest = w.front ++ w.quote :: (w.raw ++ w.quote :: rest) := by
  simp [text, front, quoted]

theorem notMem_front {w : Spelling} {c : Char} (hc : isSpace c = false) (hsign : c ≠ '=')
    (hkey : c ∉ w.key) : c ∉ w.front := by
  have hspaces {s : List Char} (hs : ∀ c ∈ s, isSpace c) : c ∉ s := fun hmem => by
    rw [hs c hmem] at hc
    cases hc
  simp only [front, List.mem_append, List.mem_cons, not_or]
  exact ⟨hspaces w.isSpace_lead, hkey, hspaces w.isSpace_before, hsign, hspaces w.isSpace_behind⟩

def withRaw (w : Spelling) (raw : List Char) (h : w.quote ∉ raw) : Spelling :=
  { w with raw, quote_notMem := h }

theorem text_withRaw (w : Spelling) {raw : List Char} (h : w.quote ∉ raw) (rest : List Char) :
    (w.withRaw raw h).text ++ rest = w.front ++ w.quote :: (raw ++ w.quote :: rest) :=
  text_append _ rest

end Spelling

def Spells (ws : List Spelling) (s : List Char) : Prop :=
  ∃ trail, (∀ c ∈ trail, isSpace c) ∧ s = ws.flatMap Spelling.text ++ trail

namespace Attribute

theorem dropWhile_spaces {spaces : List Char} (h : ∀ c ∈ spaces, isSpace c) {c : Char}
    (hc : isSpace c = false) (s : List Char) : (spaces ++ c :: s).dropWhile isSpace = c :: s := by
  rw [List.dropWhile_append_of_pos h, List.dropWhile_cons_of_neg (by simp [hc])]

theorem exists_spaces {s : List Char} {c : Char} {rest : List Char}
    (h : s.dropWhile isSpace = c :: rest) :
    ∃ spaces, (∀ c ∈ spaces, isSpace c) ∧ isSpace c = false ∧ s = spaces ++ c :: rest := by
  have hhead := List.head?_dropWhile_not isSpace s
  rw [h] at hhead
  refine ⟨s.takeWhile isSpace, fun c hc => List.mem_takeWhile_imp hc, by simpa using hhead, ?_⟩
  rw [← h, List.takeWhile_append_dropWhile]

theorem splitQuoted?_eq_some {s value rest : List Char} : splitQuoted? s = some (value, rest) ↔
    ∃ q, (q = '"' ∨ q = '\'') ∧ q ∉ value ∧ s = q :: (value ++ q :: rest) := by
  constructor
  · intro h
    unfold splitQuoted? at h
    split at h
    · next q s =>
      split at h
      · next hq =>
        split at h
        · next stop rest' hstop =>
          obtain ⟨rfl, rfl⟩ := Prod.mk.inj (Option.some.inj h)
          have hquote : stop = q := by
            have hhead := List.head?_dropWhile_not (· != q) s
            rw [hstop] at hhead
            simpa using hhead
          subst hquote
          refine ⟨stop, hq, fun hmem => ?_, ?_⟩
          · simpa using List.mem_takeWhile_imp hmem
          · rw [← hstop, List.takeWhile_append_dropWhile]
        · cases h
      · cases h
    · cases h
  · rintro ⟨q, hq, hvalue, rfl⟩
    have hno : ∀ c ∈ value, (c != q) = true := by
      intro c hc
      have hne : c ≠ q := fun heq => hvalue (heq ▸ hc)
      simpa using hne
    rw [splitQuoted?, if_pos hq, List.takeWhile_append_of_pos hno, List.dropWhile_append_of_pos hno]
    simp

theorem splitFirst?_text (w : Spelling) (rest : List Char) :
    splitFirst? (w.key ++ (w.before ++ '=' :: (w.behind ++ (w.quoted ++ rest)))) =
      some ((w.key, w.raw), rest) := by
  have hkey (tail : List Char) (htail : ∀ c ∈ tail.head?, (c != '=' && !isSpace c) = false) :
      splitKey (w.key ++ tail) = (w.key, tail) := by
    rw [Spelling.key, List.cons_append, splitKey, List.takeWhile_append_of_pos w.continues_more,
      List.dropWhile_append_of_pos w.continues_more]
    cases tail with
    | nil => simp
    | cons c tail => simp [htail c rfl]
  have hsign : ∀ c ∈ (w.before ++ '=' :: (w.behind ++ (w.quoted ++ rest))).head?,
      (c != '=' && !isSpace c) = false := by
    intro c hc
    cases hbefore : w.before with
    | nil =>
      rw [hbefore] at hc
      obtain rfl := Option.some.inj hc
      rfl
    | cons x before =>
      rw [hbefore] at hc
      obtain rfl := Option.some.inj hc
      simp [w.isSpace_before x (hbefore ▸ List.mem_cons_self)]
  have hquote : isSpace w.quote = false := by
    obtain h | h := w.quote_eq
    · rw [h]; rfl
    · rw [h]; rfl
  have hquoted : splitQuoted? (w.quoted ++ rest) = some (w.raw, rest) :=
    splitQuoted?_eq_some.mpr ⟨w.quote, w.quote_eq, w.quote_notMem, by simp [Spelling.quoted]⟩
  have hbehind : (w.behind ++ (w.quoted ++ rest)).dropWhile isSpace = w.quoted ++ rest :=
    dropWhile_spaces w.isSpace_behind hquote _
  unfold splitFirst?
  rw [hkey _ hsign]
  dsimp only
  rw [dropWhile_spaces w.isSpace_before rfl]
  change (splitQuoted? ((w.behind ++ (w.quoted ++ rest)).dropWhile isSpace)).map _ = _
  rw [hbehind, hquoted]
  rfl

theorem exists_of_splitFirst {c : Char} (hc : isSpace c = false) {s rest : List Char}
    {pair : List Char × List Char} (h : splitFirst? (c :: s) = some (pair, rest)) :
    ∃ w : Spelling, w.lead = [] ∧ pair = (w.key, w.raw) ∧ c :: s = w.text ++ rest := by
  unfold splitFirst? splitKey at h
  dsimp only at h
  split at h
  · next tail hsign =>
    obtain ⟨⟨raw, rest'⟩, hquoted, heq⟩ := Option.map_eq_some_iff.mp h
    obtain ⟨rfl, rfl⟩ := Prod.mk.inj heq
    obtain ⟨q, hq, hraw, htail⟩ := splitQuoted?_eq_some.mp hquoted
    obtain ⟨before, hbefore, -, hrest⟩ := exists_spaces hsign
    obtain ⟨behind, hbehind, -, rfl⟩ := exists_spaces htail
    refine ⟨{
      first := c
      more := s.takeWhile fun x => x != '=' && !isSpace x
      before, behind, quote := q, raw
      isSpace_before := hbefore
      isSpace_behind := hbehind
      not_isSpace_first := hc
      continues_more := fun x hx => by simpa using List.mem_takeWhile_imp hx
      quote_eq := hq
      quote_notMem := hraw }, rfl, rfl, ?_⟩
    have hs : s = (s.takeWhile fun x => x != '=' && !isSpace x) ++
        (before ++ '=' :: (behind ++ q :: (raw ++ q :: rest'))) := by
      rw [← hrest, List.takeWhile_append_dropWhile]
    simp only [Spelling.text, Spelling.key, Spelling.quoted]
    conv => lhs; rw [hs]
    simp
  · cases h

theorem split?_of_spaces {s : List Char} (h : ∀ c ∈ s, isSpace c) : split? s = some [] := by
  have hnil : s.dropWhile isSpace = [] := by
    simpa using h
  unfold split?
  split
  · rfl
  · next heq =>
    rw [hnil] at heq
    cases heq

theorem split?_of_first {s rest : List Char} {c : Char} {t : List Char}
    {pair : List Char × List Char} (hs : s.dropWhile isSpace = c :: t)
    (h : splitFirst? (c :: t) = some (pair, rest)) : split? s = (split? rest).map (pair :: ·) := by
  rw [split?]
  split
  · next heq =>
    rw [hs] at heq
    cases heq
  · next c' t' heq =>
    obtain ⟨rfl, rfl⟩ := List.cons.inj (hs.symm.trans heq)
    split
    · next pair' rest' hfirst =>
      obtain ⟨rfl, rfl⟩ := Prod.mk.inj (Option.some.inj (h.symm.trans hfirst))
      rfl
    · next hnone =>
      rw [h] at hnone
      cases hnone

/-- A text is read as the keys and values of its spellings. -/
theorem split?_eq_some {s : List Char} {pairs : List (List Char × List Char)} :
    split? s = some pairs ↔ ∃ ws, Spells ws s ∧ pairs = ws.map fun w => (w.key, w.raw) := by
  constructor
  · intro h
    fun_induction split? s generalizing pairs with
    | case1 s hblank =>
      obtain rfl := Option.some.inj h
      exact ⟨[], ⟨s, by simpa using hblank, rfl⟩, rfl⟩
    | case2 s c t hs pair rest hfirst ih =>
      obtain ⟨pairs', hpairs', rfl⟩ := Option.map_eq_some_iff.mp h
      obtain ⟨ws, ⟨trail, htrail, hrest⟩, rfl⟩ := ih hpairs'
      obtain ⟨spaces, hspaces, hc, hlead⟩ := exists_spaces hs
      obtain ⟨w, hw, rfl, htext⟩ := exists_of_splitFirst hc hfirst
      refine ⟨{ w with lead := spaces, isSpace_lead := hspaces } :: ws, ⟨trail, htrail, ?_⟩, rfl⟩
      rw [hlead, htext, hrest]
      simp [Spelling.text, Spelling.key, Spelling.quoted, hw]
    | case3 s c t hs hfirst => cases h
  · rintro ⟨ws, ⟨trail, htrail, rfl⟩, rfl⟩
    induction ws with
    | nil => exact split?_of_spaces htrail
    | cons w ws ih =>
      have hs : ((w :: ws).flatMap Spelling.text ++ trail).dropWhile isSpace =
          w.key ++ (w.before ++ '=' ::
            (w.behind ++ (w.quoted ++ (ws.flatMap Spelling.text ++ trail)))) := by
        have htext : (w :: ws).flatMap Spelling.text ++ trail = w.lead ++ (w.key ++ (w.before ++
            '=' :: (w.behind ++ (w.quoted ++ (ws.flatMap Spelling.text ++ trail))))) := by
          simp [Spelling.text]
        rw [htext]
        exact dropWhile_spaces w.isSpace_lead w.not_isSpace_first _
      rw [split?_of_first hs (splitFirst?_text w _), ih]
      rfl

end Attribute

def Spelling.attribute? (w : Spelling) : Option Attribute := Attribute.ofWritten? w.key w.raw

theorem Spelling.attribute?_eq_some {w : Spelling} {a : Attribute} : w.attribute? = some a ↔
    a.key.toList = w.key ∧ Entity.expand? w.raw = some a.value.toList := by
  obtain ⟨key, value⟩ := a
  simp only [attribute?, Attribute.ofWritten?, Option.map_eq_some_iff, Attribute.mk.injEq]
  constructor
  · rintro ⟨v, hv, rfl, rfl⟩
    exact ⟨String.toList_ofList, by rw [String.toList_ofList]; exact hv⟩
  · rintro ⟨hkey, hvalue⟩
    exact ⟨_, hvalue, by rw [← hkey, String.ofList_toList], String.ofList_toList⟩

namespace Spells

variable {ws : List Spelling} {s : List Char} {attributes : List Attribute}

theorem cons_iff {w : Spelling} :
    Spells (w :: ws) s ↔ ∃ rest, Spells ws rest ∧ s = w.text ++ rest := by
  constructor
  · rintro ⟨trail, htrail, rfl⟩
    exact ⟨_, ⟨trail, htrail, rfl⟩, by simp⟩
  · rintro ⟨_, ⟨trail, htrail, rfl⟩, rfl⟩
    exact ⟨trail, htrail, by simp⟩

theorem read?_eq_some (h : Spells ws s) : Attribute.read? s = some attributes ↔
    (ws.map Spelling.key).Nodup ∧ ws.map Spelling.attribute? = attributes.map some := by
  have hkeys : (ws.map fun w => (w.key, w.raw)).map Prod.fst = ws.map Spelling.key := by
    rw [List.map_map]
    rfl
  rw [Attribute.read?, Attribute.split?_eq_some.mpr ⟨ws, h, rfl⟩, Option.bind_eq_bind,
    Option.bind_some, hkeys, Option.ite_none_right_eq_some, mapM_eq_some, List.map_map]
  rfl

theorem exists_of_read (h : Attribute.read? s = some attributes) : ∃ ws, Spells ws s := by
  obtain ⟨pairs, hpairs, -⟩ := Option.bind_eq_some_iff.mp h
  obtain ⟨ws, hspells, -⟩ := Attribute.split?_eq_some.mp hpairs
  exact ⟨ws, hspells⟩

theorem exists_attribute (h : ws.map Spelling.attribute? = attributes.map some) {w : Spelling}
    (hw : w ∈ ws) : ∃ a ∈ attributes, w.attribute? = some a := by
  have hmem : w.attribute? ∈ attributes.map some := h ▸ List.mem_map_of_mem hw
  obtain ⟨a, ha, heq⟩ := List.mem_map.mp hmem
  exact ⟨a, ha, heq.symm⟩

theorem keys_eq (h : ws.map Spelling.attribute? = attributes.map some) :
    attributes.map (·.key.toList) = ws.map Spelling.key := by
  induction ws generalizing attributes with
  | nil => cases attributes with
    | nil => rfl
    | cons => cases h
  | cons w ws ih => cases attributes with
    | nil => cases h
    | cons a attributes =>
      obtain ⟨hfirst, hothers⟩ := List.cons.inj h
      rw [List.map_cons, List.map_cons, ih hothers, (Spelling.attribute?_eq_some.mp hfirst).1]

theorem notMem_key (h : ws.map Spelling.attribute? = attributes.map some) {c : Char}
    (hkeys : ∀ a ∈ attributes, c ∉ a.key.toList) : ∀ w ∈ ws, c ∉ w.key := by
  intro w hw
  obtain ⟨a, ha, hattribute⟩ := exists_attribute h hw
  exact (Spelling.attribute?_eq_some.mp hattribute).1 ▸ hkeys a ha

end Spells

end Replay.Xml
