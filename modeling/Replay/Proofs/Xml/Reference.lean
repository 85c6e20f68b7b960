import Replay.Proofs.Text.Cutting
import Replay.Proofs.Xml.Spelling
import Replay.Xml.Repair
set_option autoImplicit false

/-!
Texts in which every ampersand begins a reference (`Referenced`). The value of an attribute is one
whose references all stand for characters, since otherwise it would not be read (`isSome_expand?`), and
so are the attributes of a tag whose keys have no ampersand (`referenced_of_read`). Escaping leaves such
an ampersand as it is (`escapeAmpersands_reference`).
-/

namespace Replay.Xml.Repair

inductive IsReferenceName : List Char → Prop where
  | hexadecimal {digits : List Char} (hne : digits ≠ []) (h : ∀ c ∈ digits, isHexDigit c) :
      IsReferenceName ('#' :: 'x' :: digits)
  | decimal {digits : List Char} (hne : digits ≠ []) (h : ∀ c ∈ digits, c.isDigit) :
      IsReferenceName ('#' :: digits)
  | named {c : Char} {name : List Char} (hc : c.isAlpha) (h : ∀ c ∈ name, c.isAlphanum) :
      IsReferenceName (c :: name)

theorem isAlphanum_of_isHexDigit {c : Char} (h : isHexDigit c) : c.isAlphanum := by
  have hupper : c.isUpper = decide ('A' ≤ c ∧ c ≤ 'Z') := rfl
  have hlower : c.isLower = (decide ('a' ≤ c) && decide (c ≤ 'z')) := rfl
  have hranges : c.isAlphanum = (c.isUpper || c.isLower || c.isDigit) := rfl
  unfold isHexDigit Entity.hexValue? at h
  rw [hranges, hupper, hlower]
  grind [Char.le_def, UInt32.le_iff_toNat_le]

namespace IsReferenceName

variable {name : List Char} (h : IsReferenceName name)
include h

theorem isAlphanum_or : ∀ c ∈ name, c.isAlphanum ∨ c = '#' := by
  cases h with
  | hexadecimal _ h =>
    simp only [List.forall_mem_cons]
    exact ⟨by decide, by decide, fun c hc => Or.inl (isAlphanum_of_isHexDigit (h c hc))⟩
  | decimal _ h =>
    simp only [List.forall_mem_cons]
    exact ⟨by decide, fun c hc => Or.inl (by simp [Char.isAlphanum, h c hc])⟩
  | named hc h =>
    simp only [List.forall_mem_cons]
    exact ⟨Or.inl (by simp [Char.isAlphanum, hc]), fun c hc => Or.inl (h c hc)⟩

theorem notMem {c : Char} (hc : ¬ (c.isAlphanum ∨ c = '#')) : c ∉ name :=
  fun hmem => hc (h.isAlphanum_or c hmem)

theorem no_ampersand : '&' ∉ name := h.notMem (by decide)

theorem no_semicolon : ';' ∉ name := h.notMem (by decide)

end IsReferenceName

theorem head?_dropWhile_iff {p : Char → Bool} (hp : p ';' = false) {s : List Char} :
    (s.dropWhile p).head? = some ';' ↔
      ∃ run rest, (∀ c ∈ run, p c) ∧ s = run ++ ';' :: rest ∧ s.takeWhile p = run := by
  constructor
  · intro h
    obtain ⟨rest, hrest⟩ := List.head?_eq_some_iff.mp h
    refine ⟨s.takeWhile p, rest, fun c hc => List.mem_takeWhile_imp hc, ?_, rfl⟩
    rw [← hrest, List.takeWhile_append_dropWhile]
  · rintro ⟨run, rest, hrun, rfl, -⟩
    rw [List.dropWhile_append_of_pos hrun, List.dropWhile_cons_of_neg (by simp [hp])]
    rfl

theorem closesAfter_iff {p : Char → Bool} (hp : p ';' = false) {s : List Char} :
    closesAfter p s = true ↔
      ∃ run rest, run ≠ [] ∧ (∀ c ∈ run, p c) ∧ s = run ++ ';' :: rest := by
  rw [closesAfter, Bool.and_eq_true, beq_iff_eq, head?_dropWhile_iff hp]
  constructor
  · rintro ⟨hne, run, rest, hrun, hs, rfl⟩
    exact ⟨_, rest, by simpa using hne, hrun, hs⟩
  · rintro ⟨run, rest, hne, hrun, rfl⟩
    have htake : (run ++ ';' :: rest).takeWhile p = run := by
      rw [List.takeWhile_append_of_pos hrun, List.takeWhile_cons_of_neg (by simp [hp]),
        List.append_nil]
    exact ⟨by simpa [htake] using hne, run, rest, hrun, rfl, htake⟩

theorem isReference_decimal {s : List Char} (hs : s.head? ≠ some 'x') :
    isReference ('#' :: s) = closesAfter Char.isDigit s := by
  unfold isReference
  split
  · next heq => exact absurd (by simp [(List.cons.inj heq).2]) hs
  · next heq => rw [(List.cons.inj heq).2]
  · next hno heq => exact (hno (List.cons.inj heq).1.symm).elim
  · next heq => cases heq

theorem isReference_named {c : Char} (hc : c ≠ '#') (s : List Char) :
    isReference (c :: s) = (c.isAlpha && (s.dropWhile Char.isAlphanum).head? == some ';') := by
  unfold isReference
  split
  · next heq => exact absurd (List.cons.inj heq).1 hc
  · next heq => exact absurd (List.cons.inj heq).1 hc
  · next heq => rw [(List.cons.inj heq).1, (List.cons.inj heq).2]
  · next heq => cases heq

theorem isReference_iff {s : List Char} :
    isReference s = true ↔ ∃ name rest, IsReferenceName name ∧ s = name ++ ';' :: rest := by
  constructor
  · intro h
    unfold isReference at h
    split at h
    · obtain ⟨run, rest, hne, hrun, rfl⟩ := (closesAfter_iff (by decide)).mp h
      exact ⟨_, rest, .hexadecimal hne hrun, rfl⟩
    · obtain ⟨run, rest, hne, hrun, rfl⟩ := (closesAfter_iff (by decide)).mp h
      exact ⟨_, rest, .decimal hne hrun, rfl⟩
    · next c s _ _ =>
      obtain ⟨hc, hrest⟩ := Bool.and_eq_true_iff.mp h
      obtain ⟨run, rest, hrun, hs, -⟩ := (head?_dropWhile_iff (by decide)).mp (beq_iff_eq.mp hrest)
      exact ⟨c :: run, rest, .named hc hrun, by rw [hs]; rfl⟩
    · cases h
  · rintro ⟨name, rest, hname, rfl⟩
    cases hname with
    | hexadecimal hne h => exact (closesAfter_iff (by decide)).mpr ⟨_, rest, hne, h, rfl⟩
    | @decimal digits hne h =>
      obtain ⟨d, digits, rfl⟩ := List.exists_cons_of_ne_nil hne
      have hx : d ≠ 'x' := by
        rintro rfl
        cases h 'x' List.mem_cons_self
      rw [List.cons_append, isReference_decimal (by simpa using hx)]
      exact (closesAfter_iff (by decide)).mpr ⟨_, rest, hne, h, rfl⟩
    | @named c name hc h =>
      have hhash : c ≠ '#' := by
        rintro rfl
        cases hc
      rw [List.cons_append, isReference_named hhash, Bool.and_eq_true, beq_iff_eq]
      refine ⟨hc, ?_⟩
      rw [List.dropWhile_append_of_pos h, List.dropWhile_cons_of_neg (by decide)]
      rfl

theorem isReference_append {s : List Char} (h : isReference s) (t : List Char) :
    isReference (s ++ t) := by
  obtain ⟨name, rest, hname, rfl⟩ := isReference_iff.mp h
  exact isReference_iff.mpr ⟨name, rest ++ t, hname, by rw [List.append_assoc]; rfl⟩

def Referenced : List Char → Prop
  | [] => True
  | c :: s => (c = '&' → isReference s) ∧ Referenced s

theorem referenced_of_notMem {s : List Char} (h : '&' ∉ s) : Referenced s := by
  induction s with
  | nil => trivial
  | cons c s ih =>
    obtain ⟨hc, hs⟩ := not_or.mp (mt List.mem_cons.mpr h)
    exact ⟨fun heq => absurd heq.symm hc, ih hs⟩

theorem Referenced.append {s t : List Char} (hs : Referenced s) (ht : Referenced t) :
    Referenced (s ++ t) := by
  induction s with
  | nil => exact ht
  | cons c s ih => exact ⟨fun hc => isReference_append (hs.1 hc) t, ih hs.2⟩

theorem Referenced.at {before after : List Char} (h : Referenced (before ++ '&' :: after)) :
    isReference after := by
  induction before with
  | nil => exact h.1 rfl
  | cons c before ih => exact ih h.2

theorem referenced_reference {name : List Char} (hname : IsReferenceName name) {rest : List Char}
    (hrest : Referenced rest) : Referenced ('&' :: (name ++ ';' :: rest)) := by
  refine ⟨fun _ => isReference_iff.mpr ⟨name, rest, hname, rfl⟩, ?_⟩
  refine (referenced_of_notMem hname.no_ampersand).append ⟨fun h => ?_, hrest⟩
  cases h

theorem escapeAmpersands_cons (c : Char) (s : List Char) :
    escapeAmpersands (c :: s) = putAmpersand c (escapeAmpersands s) := rfl

theorem escapeAmpersands_cons_of_ne {c : Char} (hc : c ≠ '&') (s : List Char) :
    escapeAmpersands (c :: s) = c :: escapeAmpersands s := by
  rw [escapeAmpersands_cons, putAmpersand, if_neg fun h => hc h.1]

theorem escapeAmpersands_append_of_notMem {s : List Char} (hs : '&' ∉ s) (t : List Char) :
    escapeAmpersands (s ++ t) = s ++ escapeAmpersands t := by
  induction s with
  | nil => rfl
  | cons c s ih =>
    obtain ⟨hc, hs⟩ := not_or.mp (mt List.mem_cons.mpr hs)
    rw [List.cons_append, escapeAmpersands_cons_of_ne (Ne.symm hc), ih hs, List.cons_append]

theorem isReference_escapeAmpersands {s : List Char} (h : isReference s) :
    isReference (escapeAmpersands s) := by
  obtain ⟨name, rest, hname, rfl⟩ := isReference_iff.mp h
  rw [escapeAmpersands_append_of_notMem hname.no_ampersand,
    escapeAmpersands_cons_of_ne (by decide)]
  exact isReference_iff.mpr ⟨name, _, hname, rfl⟩

theorem escapeAmpersands_reference {s : List Char} (h : isReference s) :
    escapeAmpersands ('&' :: s) = '&' :: escapeAmpersands s := by
  rw [escapeAmpersands_cons, putAmpersand, isReference_escapeAmpersands h]
  rfl

/-- Any other one is written as a reference to itself, which is the only thing that happens. -/
theorem escapeAmpersands_ampersand (s : List Char) :
    escapeAmpersands ('&' :: s) = '&' :: escapeAmpersands s ∨
      escapeAmpersands ('&' :: s) = "&amp;".toList ++ escapeAmpersands s := by
  rw [escapeAmpersands_cons, putAmpersand]
  split
  · exact Or.inr rfl
  · exact Or.inl rfl

end Replay.Xml.Repair

namespace Replay.Xml.Entity

open Repair

theorem isHexDigit_of_readHex {digits : List Char} {n : Nat} (h : readHex? digits = some n) :
    digits ≠ [] ∧ ∀ c ∈ digits, isHexDigit c := by
  unfold readHex? at h
  split at h
  · cases h
  · next hne =>
    refine ⟨by simpa using hne, ?_⟩
    generalize 0 = start at h
    clear hne
    induction digits generalizing start with
    | nil => nofun
    | cons d digits ih =>
      rw [List.foldlM_cons] at h
      cases hd : hexValue? d with
      | none => simp [hd] at h
      | some v =>
        rintro c (_ | ⟨_, hc⟩)
        · simp [isHexDigit, hd]
        · exact ih _ (by simpa [hd] using h) c hc

theorem isDigit_of_readNat {digits : List Char} {n : Nat} (h : Text.readNat? digits = some n) :
    digits ≠ [] ∧ ∀ c ∈ digits, c.isDigit := by
  unfold Text.readNat? at h
  split at h
  · next hall => simpa [List.all_eq_true] using hall
  · cases h

theorem isReferenceName_of_resolve {name : List Char} {x : Char} (h : resolve? name = some x) :
    IsReferenceName name := by
  unfold resolve? at h
  split at h
  · next digits =>
    obtain ⟨n, hn, -⟩ := Option.bind_eq_some_iff.mp h
    obtain ⟨hne, hall⟩ := isHexDigit_of_readHex hn
    exact .hexadecimal hne hall
  · next digits _ =>
    obtain ⟨n, hn, -⟩ := Option.bind_eq_some_iff.mp h
    obtain ⟨hne, hall⟩ := isDigit_of_readNat hn
    exact .decimal hne hall
  all_goals first
    | cases h; done
    | exact .named (by decide) (List.all_eq_true.mp (by decide))

def Resolved : List Char → Prop
  | [] => True
  | c :: s => (c = '&' → ∃ name rest, (resolve? name).isSome ∧ s = name ++ ';' :: rest) ∧ Resolved s

theorem isReferenceName_of_isSome {name : List Char} (h : (resolve? name).isSome) :
    IsReferenceName name := by
  obtain ⟨x, hx⟩ := Option.isSome_iff_exists.mp h
  exact isReferenceName_of_resolve hx

theorem Resolved.referenced {s : List Char} (h : Resolved s) : Referenced s := by
  induction s with
  | nil => trivial
  | cons c s ih =>
    refine ⟨fun hc => ?_, ih h.2⟩
    obtain ⟨name, rest, hname, rfl⟩ := h.1 hc
    exact isReference_iff.mpr ⟨name, rest, isReferenceName_of_isSome hname, rfl⟩

theorem resolved_append_of_notMem {s : List Char} (h : '&' ∉ s) (t : List Char) :
    Resolved (s ++ t) ↔ Resolved t := by
  induction s with
  | nil => rfl
  | cons c s ih =>
    obtain ⟨hc, hs⟩ := not_or.mp (mt List.mem_cons.mpr h)
    rw [List.cons_append, Resolved, ih hs]
    exact and_iff_right fun heq => absurd heq.symm hc

theorem resolved_of_notMem {s : List Char} (h : '&' ∉ s) : Resolved s := by
  have happend := resolved_append_of_notMem h []
  rw [List.append_nil] at happend
  exact happend.mpr trivial

theorem resolved_reference {name : List Char} (hname : IsReferenceName name) {rest : List Char} :
    Resolved ('&' :: (name ++ ';' :: rest)) ↔ (resolve? name).isSome ∧ Resolved rest := by
  have hsplit : name ++ ';' :: rest = name ++ [';'] ++ rest := by simp
  have hplain : '&' ∉ name ++ [';'] := by simpa using hname.no_ampersand
  have hrest : Resolved (name ++ ';' :: rest) ↔ Resolved rest := by
    rw [hsplit, resolved_append_of_notMem hplain]
  rw [Resolved, hrest]
  refine and_congr_left fun _ => ⟨fun h => ?_, fun h _ => ⟨name, rest, h, rfl⟩⟩
  obtain ⟨name', rest', hresolved, heq⟩ := h rfl
  have hname' := isReferenceName_of_isSome hresolved
  obtain ⟨rfl, -⟩ := Text.append_cons_inj hname.no_semicolon hname'.no_semicolon heq
  exact hresolved

/-- What is left of a value completes the reference that is open, and the rest is in order. -/
def Completes : Option (List Char) → List Char → Prop
  | none, s => Resolved s
  | some name, s => ∃ more rest, s = more ++ ';' :: rest ∧
      (resolve? (name.reverse ++ more)).isSome ∧ Resolved rest

theorem completes_ampersand {s : List Char} : Completes none ('&' :: s) ↔ Completes (some []) s := by
  constructor
  · rintro ⟨hfirst, hrest⟩
    obtain ⟨name, rest, hname, rfl⟩ := hfirst rfl
    have hreference := isReferenceName_of_isSome hname
    exact ⟨name, rest, rfl, hname, ((resolved_reference hreference).mp ⟨hfirst, hrest⟩).2⟩
  · rintro ⟨name, rest, rfl, hname, hrest⟩
    exact (resolved_reference (isReferenceName_of_isSome hname)).mpr ⟨hname, hrest⟩

theorem completes_semicolon {name s : List Char} :
    Completes (some name) (';' :: s) ↔ (resolve? name.reverse).isSome ∧ Resolved s := by
  constructor
  · rintro ⟨more, rest, heq, hname, hrest⟩
    cases more with
    | nil =>
      obtain ⟨-, rfl⟩ := List.cons.inj heq
      exact ⟨by simpa using hname, hrest⟩
    | cons c more =>
      obtain ⟨rfl, -⟩ := List.cons.inj heq
      exact absurd (by simp) (isReferenceName_of_isSome hname).no_semicolon
  · rintro ⟨hname, hrest⟩
    exact ⟨[], s, rfl, by simpa using hname, hrest⟩

theorem completes_cons {name s : List Char} {c : Char} (hc : c ≠ ';') :
    Completes (some name) (c :: s) ↔ c ≠ '&' ∧ Completes (some (c :: name)) s := by
  constructor
  · rintro ⟨more, rest, heq, hname, hrest⟩
    cases more with
    | nil => exact absurd (List.cons.inj heq).1 hc
    | cons x more =>
      obtain ⟨rfl, rfl⟩ := List.cons.inj heq
      refine ⟨?_, more, rest, rfl, by simpa using hname, hrest⟩
      rintro rfl
      exact absurd (by simp) (isReferenceName_of_isSome hname).no_ampersand
  · rintro ⟨-, more, rest, rfl, hname, hrest⟩
    exact ⟨c :: more, rest, rfl, by simpa using hname, hrest⟩

theorem isSome_expandFrom {pending : Option (List Char)} {done s : List Char} :
    (expandFrom pending done s).isSome ↔ Completes pending s := by
  induction s generalizing pending done with
  | nil => cases pending <;> simp [expandFrom, Completes, Resolved]
  | cons c s ih =>
    cases pending with
    | none =>
      rw [expandFrom]
      split
      · next hc => rw [ih, hc, completes_ampersand]
      · next hc =>
        rw [ih]
        exact (and_iff_right fun heq => absurd heq hc).symm
    | some name =>
      rw [expandFrom]
      by_cases hsemicolon : c = ';'
      · subst hsemicolon
        rw [completes_semicolon, if_neg (by decide), if_pos rfl]
        cases resolve? name.reverse with
        | none => simp
        | some x =>
          rw [Option.isSome_some, and_iff_right rfl]
          exact ih
      · rw [completes_cons hsemicolon, if_neg hsemicolon]
        split
        · next hc => simp [hc]
        · next hc => rw [ih, and_iff_right hc]

/-- A value can be expanded if every ampersand begins a reference to a character. -/
theorem isSome_expand? {s : List Char} : (expand? s).isSome ↔ Resolved s := isSome_expandFrom

theorem referenced_of_expand {s value : List Char} (h : expand? s = some value) : Referenced s :=
  (isSome_expand?.mp (by rw [h]; rfl)).referenced

end Replay.Xml.Entity

namespace Replay.Xml

theorem Spelling.isSome_attribute? {w : Spelling} : w.attribute?.isSome ↔ Entity.Resolved w.raw := by
  rw [attribute?, Attribute.ofWritten?, Option.isSome_map, Entity.isSome_expand?]

namespace Spells

variable {ws : List Spelling} {s : List Char}

theorem resolved {as : List Attribute} (h : ws.map Spelling.attribute? = as.map some) :
    ∀ w ∈ ws, Entity.Resolved w.raw := by
  intro w hw
  obtain ⟨a, -, ha⟩ := exists_attribute h hw
  exact Spelling.isSome_attribute?.mp (by rw [ha]; rfl)

/-- Attributes can be read if they are spelled, with each key once and with nothing but references to
characters behind ampersands. -/
theorem exists_attributes (h : Spells ws s) (hkeys : (ws.map Spelling.key).Nodup)
    (hraws : ∀ w ∈ ws, Entity.Resolved w.raw) :
    ∃ as, Attribute.read? s = some as ∧ as.map (·.key.toList) = ws.map Spelling.key := by
  have hattributes : ∃ as : List Attribute, ws.map Spelling.attribute? = as.map some := by
    clear h hkeys
    induction ws with
    | nil => exact ⟨[], rfl⟩
    | cons w ws ih =>
      obtain ⟨hfirst, hothers⟩ := List.forall_mem_cons.mp hraws
      obtain ⟨as, has⟩ := ih hothers
      obtain ⟨a, ha⟩ := Option.isSome_iff_exists.mp (Spelling.isSome_attribute?.mpr hfirst)
      exact ⟨a :: as, by simp [ha, has]⟩
  obtain ⟨as, has⟩ := hattributes
  exact ⟨as, h.read?_eq_some.mpr ⟨hkeys, has⟩, keys_eq has⟩

end Spells

end Replay.Xml

namespace Replay.Xml.Attribute

open Repair

theorem ampersand_notMem_of_isSpace {s : List Char} (h : ∀ c ∈ s, isSpace c) : '&' ∉ s := by
  intro hmem
  cases h '&' hmem

theorem referenced_text {w : Spelling} {a : Attribute} (hkey : '&' ∉ w.key)
    (h : w.attribute? = some a) : Referenced w.text := by
  have hquote : '&' ≠ w.quote := by
    obtain hq | hq := w.quote_eq
    · rw [hq]; decide
    · rw [hq]; decide
  have hends : Referenced [w.quote] := referenced_of_notMem (by simpa using hquote)
  have hquotes : Referenced w.quoted := ⟨fun heq => absurd heq.symm hquote,
    (Entity.referenced_of_expand (Spelling.attribute?_eq_some.mp h).2).append hends⟩
  have hsign : Referenced ('=' :: (w.behind ++ w.quoted)) := ⟨nofun,
    (referenced_of_notMem (ampersand_notMem_of_isSpace w.isSpace_behind)).append hquotes⟩
  exact (referenced_of_notMem (ampersand_notMem_of_isSpace w.isSpace_lead)).append
    ((referenced_of_notMem hkey).append
      ((referenced_of_notMem (ampersand_notMem_of_isSpace w.isSpace_before)).append hsign))

theorem referenced_of_read {s : List Char} {attributes : List Attribute}
    (h : read? s = some attributes) (hkeys : ∀ a ∈ attributes, '&' ∉ a.key.toList) :
    Referenced s := by
  obtain ⟨ws, hspells⟩ := Spells.exists_of_read h
  have hattributes := (hspells.read?_eq_some.mp h).2
  have htexts : ∀ w ∈ ws, Referenced w.text := fun w hw => by
    obtain ⟨a, -, hattribute⟩ := Spells.exists_attribute hattributes hw
    exact referenced_text (Spells.notMem_key hattributes hkeys w hw) hattribute
  clear h hattributes
  induction ws generalizing s with
  | nil =>
    obtain ⟨_, hspaces, rfl⟩ := hspells
    exact referenced_of_notMem (ampersand_notMem_of_isSpace hspaces)
  | cons w ws ih =>
    obtain ⟨rest, hrest, rfl⟩ := Spells.cons_iff.mp hspells
    obtain ⟨hfirst, htexts⟩ := List.forall_mem_cons.mp htexts
    exact hfirst.append (ih hrest htexts)

end Replay.Xml.Attribute
