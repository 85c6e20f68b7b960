import Replay.Proofs.Xml.Rescale.Bounds
import Replay.Proofs.Xml.Spelling
set_option autoImplicit false

namespace Replay.Xml

open Rescale

theorem Entity.expand?_of_notMem {s : List Char} (h : '&' ∉ s) : expand? s = some s := by
  have hfrom (done : List Char) : expandFrom none done s = some (done.reverse ++ s) := by
    induction s generalizing done with
    | nil => simp [expandFrom]
    | cons c s ih =>
      obtain ⟨hc, hs⟩ := not_or.mp (mt List.mem_cons.mpr h)
      rw [expandFrom, if_neg (Ne.symm hc), ih hs]
      simp
  exact hfrom []

namespace Spelling

def HasBoundsKey (w : Spelling) : Prop := w.key = ['b', 'o', 'u', 'n', 'd', 's']

instance (w : Spelling) : Decidable w.HasBoundsKey := inferInstanceAs (Decidable (_ = _))

structure Found (w : Spelling) : Prop where
  key_eq : w.HasBoundsKey
  before_eq : w.before = []
  behind_eq : w.behind = []
  quote_eq : w.quote = '"'
  isCorners_raw : IsCorners w.raw

theorem text_of_form {w : Spelling} (hkey : w.HasBoundsKey) (hbefore : w.before = [])
    (hbehind : w.behind = []) (hquote : w.quote = '"') (rest : List Char) :
    w.text ++ rest = w.lead ++ (attributeStart ++ (w.raw ++ '"' :: rest)) := by
  have hkey : w.key = _ := hkey
  simp [text, quoted, hkey, hbefore, hbehind, hquote, attributeStart]

end Spelling

/-- Attributes of a tag of which rescaling finds each that is bounds with a rectangle, and nothing in
any other. -/
inductive Recognized : List Char → Prop where
  | nil {s : List Char} (hspaces : ∀ c ∈ s, isSpace c) : Recognized s
  | found {w : Spelling} {rest : List Char} (hfound : w.Found) (h : Recognized rest) :
      Recognized (w.text ++ rest)
  | passed {w : Spelling} {rest : List Char} (hunfound : Unfound w.text rest)
      (hrect : w.HasBoundsKey → (Entity.expand? w.raw >>= Rect.read?) = none)
      (h : Recognized rest) : Recognized (w.text ++ rest)

variable (change : Rect → Rect)

/-- A bounds attribute with its rectangle mapped. Any other attribute stays, and so does one whose
value is no rectangle. -/
def Attribute.mapBounds (a : Attribute) : Attribute :=
  if a.key = "bounds" then
    { a with value := ((Rect.parse? a.value).map fun r => (change r).render).getD a.value }
  else a

namespace Spelling

theorem exists_rescaled {w : Spelling} (h : w.Found) (rest : List Char) : ∃ w' : Spelling,
    w'.key = w.key ∧ mapBoundsChars change (w.text ++ rest) = w'.text ++ mapBoundsChars change rest ∧
      w'.attribute? = w.attribute?.map (Attribute.mapBounds change) := by
  have hmapped := forall_mem_mapValue change h.isCorners_raw
  have hquote : w.quote ∉ mapValue change w.raw := fun hmem => by
    have hcorner := hmapped _ hmem
    rw [h.quote_eq] at hcorner
    exact absurd hcorner (by decide)
  let w' : Spelling := { w with raw := mapValue change w.raw, quote_notMem := hquote }
  refine ⟨w', rfl, ?_, ?_⟩
  · have hlead : 'b' ∉ w.lead := fun hmem => absurd (w.isSpace_lead _ hmem) (by decide)
    calc mapBoundsChars change (w.text ++ rest)
      _ = mapBoundsChars change (w.lead ++ (attributeStart ++ (w.raw ++ '"' :: rest))) :=
        congrArg _ (text_of_form h.key_eq h.before_eq h.behind_eq h.quote_eq rest)
      _ = w.lead ++ (attributeStart ++
          (mapValue change w.raw ++ '"' :: mapBoundsChars change rest)) := by
        rw [map_append_of_notMem change hlead, map_bounds change h.isCorners_raw]
      _ = w'.text ++ mapBoundsChars change rest :=
        (text_of_form (w := w') h.key_eq h.before_eq h.behind_eq h.quote_eq _).symm
  · have hexpand {value : List Char} (hvalue : ∀ c ∈ value, IsCornerChar c) :
        Entity.expand? value = some value :=
      Entity.expand?_of_notMem fun hmem => absurd (hvalue _ hmem) (by decide)
    have hkey : String.ofList w.key = "bounds" := congrArg String.ofList h.key_eq
    change Attribute.ofWritten? w.key (mapValue change w.raw) = _
    rw [attribute?, Attribute.ofWritten?, Attribute.ofWritten?, hexpand hmapped,
      hexpand h.isCorners_raw.forall_mem, Option.map_some, Option.map_some, Option.map_some,
      Attribute.mapBounds, if_pos hkey, Rect.parse?, String.toList_ofList]
    unfold mapValue
    cases Rect.read? w.raw with
    | none => rfl
    | some r => simp

theorem attribute?_of_passed {w : Spelling}
    (h : w.HasBoundsKey → (Entity.expand? w.raw >>= Rect.read?) = none) :
    w.attribute? = w.attribute?.map (Attribute.mapBounds change) := by
  unfold attribute? Attribute.ofWritten?
  cases hexpand : Entity.expand? w.raw with
  | none => rfl
  | some value =>
    rw [Option.map_some, Option.map_some, Attribute.mapBounds]
    split
    · next hkey =>
      have hnone := h (String.ofList_injective hkey)
      rw [hexpand, Option.bind_eq_bind, Option.bind_some] at hnone
      rw [Rect.parse?, String.toList_ofList, hnone]
      rfl
    · rfl

end Spelling

/-- Recognized attributes are rescaled to spellings of those with their bounds mapped. -/
theorem Recognized.exists_rescaled {s : List Char} (h : Recognized s) : ∃ ws ws', Spells ws s ∧
    Spells ws' (mapBoundsChars change s) ∧ ws'.map Spelling.key = ws.map Spelling.key ∧
      ws'.map Spelling.attribute? =
        (ws.map Spelling.attribute?).map (Option.map (Attribute.mapBounds change)) := by
  induction h with
  | @nil s hspaces =>
    have hsame : mapBoundsChars change s = s :=
      map_of_notMem change fun hmem => absurd (hspaces _ hmem) (by decide)
    exact ⟨[], [], ⟨s, hspaces, rfl⟩, ⟨s, hspaces, hsame⟩, rfl, rfl⟩
  | @found w rest hfound _ ih =>
    obtain ⟨ws, ws', hspells, hspells', hkeys, hattributes⟩ := ih
    obtain ⟨w', hkey, htext, hattribute⟩ := w.exists_rescaled change hfound rest
    refine ⟨w :: ws, w' :: ws', Spells.cons_iff.mpr ⟨rest, hspells, rfl⟩,
      Spells.cons_iff.mpr ⟨_, hspells', htext⟩, ?_, ?_⟩
    · rw [List.map_cons, List.map_cons, hkey, hkeys]
    · rw [List.map_cons, List.map_cons, List.map_cons, hattribute, hattributes]
  | @passed w rest hunfound hrect _ ih =>
    obtain ⟨ws, ws', hspells, hspells', hkeys, hattributes⟩ := ih
    refine ⟨w :: ws, w :: ws', Spells.cons_iff.mpr ⟨rest, hspells, rfl⟩,
      Spells.cons_iff.mpr ⟨_, hspells', map_append_of_unfound change hunfound⟩, ?_, ?_⟩
    · rw [List.map_cons, List.map_cons, hkeys]
    · rw [List.map_cons, List.map_cons, List.map_cons, hattributes,
        ← Spelling.attribute?_of_passed change hrect]

theorem Attribute.read?_map {s : List Char} {attributes : List Attribute}
    (h : read? s = some attributes) (hrecognized : Recognized s) :
    read? (mapBoundsChars change s) = some (attributes.map (mapBounds change)) := by
  obtain ⟨ws, ws', hspells, hspells', hkeys, hmapped⟩ := hrecognized.exists_rescaled change
  obtain ⟨hnodup, hattributes⟩ := hspells.read?_eq_some.mp h
  refine hspells'.read?_eq_some.mpr ⟨hkeys ▸ hnodup, ?_⟩
  rw [hmapped, hattributes, List.map_map, List.map_map]
  rfl

end Replay.Xml
