import Mathlib.Order.Nat
import Replay.Locator.Resolution
import Replay.Proofs.Text.Cutting
set_option autoImplicit false

/-!
Which element a locator resolves to. Each tier picks one element: the path the owner of its first
hit, the bounds and the attributes the first element that they fit (`findByPath_eq_some`,
`findByBounds_eq_some`, `findByAttributes_eq_some`), and a tier counts only where the tiers before
it pick none (`resolve_eq_some`).
-/

namespace Replay.Locator

open Xml (Document)

inductive Trait where
  | resourceId
  | text
  | contentDesc
  | className
  deriving DecidableEq, Repr

namespace Trait

def all : List Trait := [resourceId, text, contentDesc, className]

theorem mem_all (t : Trait) : t ∈ all := by cases t <;> decide

def key : Trait → String
  | resourceId => "resource-id"
  | text => "text"
  | contentDesc => "content-desc"
  | className => "class"

end Trait

theorem present_some (v : String) :
    present (some v) = if Text.isBlankText v then none else some (Text.trimmed v) := by
  by_cases hblank : Text.isBlankText v
  · simp [present, hblank, Text.trimmed_eq_empty.mpr hblank]
  · simp [present, hblank, mt Text.trimmed_eq_empty.mp hblank]

theorem present_of_nonblank {v : String} (h : Text.isBlankText v = false) :
    present (some v) = some (Text.trimmed v) := by
  rw [present_some, h]
  rfl

def field (l : Locator) : Trait → Option String
  | .resourceId => l.resourceIdField
  | .text => l.textField
  | .contentDesc => l.contentDescField
  | .className => l.classNameField

def trait? (l : Locator) (t : Trait) : Option String := present (l.field t)

theorem ne_empty_of_trait? {l : Locator} {t : Trait} {v : String} (h : l.trait? t = some v) :
    v ≠ "" := by
  rw [trait?, present, Option.filter_eq_some_iff] at h
  simpa using h.2

def asked (l : Locator) : Nat := Trait.all.countP fun t => (l.trait? t).isSome

def agreeing (d : Document) (l : Locator) (id : Nat) : Nat :=
  Trait.all.countP fun t => (l.trait? t).any fun v => d.attribute? id t.key == some v

theorem wanted_eq (l : Locator) :
    l.wanted = Trait.all.filterMap fun t => (l.trait? t).map fun v => (t.key, v) := rfl

theorem length_wanted (l : Locator) : l.wanted.length = l.asked := by
  rw [wanted_eq, List.length_filterMap_eq_countP]
  simp [asked]

theorem countP_wanted (d : Document) (l : Locator) (id : Nat) :
    (l.wanted.countP fun (key, value) => d.attribute? id key == some value) = l.agreeing d id := by
  rw [wanted_eq, List.countP_filterMap, agreeing]
  refine List.countP_congr fun t _ => ?_
  cases l.trait? t <;> rfl

theorem attributeScore_eq (d : Document) (l : Locator) (id : Nat) : l.attributeScore d id =
    if l.asked = 0 then none else some ⟨l.agreeing d id, l.asked⟩ := by
  simp only [attributeScore, countP_wanted, ← length_wanted, List.isEmpty_iff_length_eq_zero]

theorem asked_eq_zero {l : Locator} : l.asked = 0 ↔ ∀ t, l.trait? t = none := by
  simp [asked, Trait.mem_all]

theorem asked_pos {l : Locator} {t : Trait} {v : String} (h : l.trait? t = some v) :
    0 < l.asked := by
  refine Nat.pos_of_ne_zero fun hzero => ?_
  rw [asked_eq_zero.mp hzero t] at h
  cases h

theorem isEmpty_iff {l : Locator} :
    l.isEmpty ↔ l.xpath = none ∧ l.bounds = none ∧ ∀ t, l.trait? t = none := by
  have htraits : (∀ t, l.trait? t = none) ↔ l.resourceId = none ∧ l.text = none ∧
      l.contentDesc = none ∧ l.className = none :=
    ⟨fun h => ⟨h .resourceId, h .text, h .contentDesc, h .className⟩,
      fun ⟨hid, htext, hdesc, hclass⟩ t => by cases t <;> assumption⟩
  simp only [isEmpty, Bool.and_eq_true, Option.isNone_iff_eq_none, htraits, and_assoc]
  exact ⟨fun ⟨hxpath, hid, htext, hdesc, hclass, hb⟩ => ⟨hxpath, hb, hid, htext, hdesc, hclass⟩,
    fun ⟨hxpath, hb, hid, htext, hdesc, hclass⟩ => ⟨hxpath, hid, htext, hdesc, hclass, hb⟩⟩

/-- The path can be read, and its first hit is the element or belongs to it. -/
def LeadsTo (d : Document) (l : Locator) (id : Nat) : Prop :=
  ∃ text path hit, l.xpath = some text ∧ XPath.parse text = .ok path ∧
    (path.evaluate d).head? = some hit ∧ hit.owner = id

/-- The element has the bounds of the locator, as they are written; blanks around them do not
count. -/
def Outlines (d : Document) (l : Locator) (id : Nat) : Prop :=
  id < d.size ∧ ∃ b v, l.bounds = some b ∧ d.attribute? id "bounds" = some v ∧
    Text.trimmed v = b.render

/-- Attributes are asked for, and the element has at least half of them. -/
def Suits (d : Document) (l : Locator) (id : Nat) : Prop :=
  id < d.size ∧ 0 < l.asked ∧ l.asked ≤ 2 * l.agreeing d id

/-- What a locator resolves to, tier by tier. -/
inductive Finds (d : Document) (l : Locator) : Resolved → Prop where
  | byPath {id : Nat} (h : l.LeadsTo d id) : Finds d l ⟨id, d.summary id, .xpath, .full⟩
  | byBounds {id : Nat} (hpath : ∀ i, ¬ l.LeadsTo d i) (h : IsLeast {i | l.Outlines d i} id) :
      Finds d l ⟨id, d.summary id, .bounds, .full⟩
  | byAttributes {id : Nat} (hpath : ∀ i, ¬ l.LeadsTo d i) (hbounds : ∀ i, ¬ l.Outlines d i)
      (h : IsLeast {i | l.Suits d i} id) :
      Finds d l ⟨id, d.summary id, .attributes, ⟨l.agreeing d id, l.asked⟩⟩

section Tiers

variable {d : Document} {l : Locator} {id : Nat}

theorem not_leadsTo (h : l.xpath = none) (id : Nat) : ¬ l.LeadsTo d id := by
  rintro ⟨text, -, -, hsome, -⟩
  rw [h] at hsome
  cases hsome

theorem not_outlines (h : l.bounds = none) (id : Nat) : ¬ l.Outlines d id := by
  rintro ⟨-, b, -, hsome, -⟩
  rw [h] at hsome
  cases hsome

theorem findByPath_eq_some : l.findByPath d = some id ↔ l.LeadsTo d id := by
  have hread (text : String) (path : XPath.Path) :
      (XPath.parse text).toOption = some path ↔ XPath.parse text = .ok path := by
    cases XPath.parse text <;> simp [Except.toOption]
  simp only [findByPath, LeadsTo, Option.bind_eq_bind, Option.bind_eq_some_iff, hread,
    XPath.Path.firstElement?, Option.map_eq_some_iff]
  constructor
  · rintro ⟨text, hpath, path, hparse, hit, hhit, howner⟩
    exact ⟨text, path, hit, hpath, hparse, hhit, howner⟩
  · rintro ⟨text, path, hit, hpath, hparse, hhit, howner⟩
    exact ⟨text, hpath, path, hparse, hit, hhit, howner⟩

theorem find?_ids_eq_some {p : Nat → Bool} :
    d.ids.find? p = some id ↔ IsLeast {i | i < d.size ∧ p i} id := by
  rw [Document.ids, List.find?_range_eq_some, List.mem_range]
  constructor
  · rintro ⟨hp, hid, hfirst⟩
    refine ⟨⟨hid, hp⟩, fun i ⟨_, hi⟩ => Nat.le_of_not_lt fun hlt => ?_⟩
    have hnot := hfirst i hlt
    rw [hi] at hnot
    cases hnot
  · rintro ⟨⟨hid, hp⟩, hleast⟩
    refine ⟨hp, hid, fun i hlt => ?_⟩
    cases hi : p i with
    | false => rfl
    | true => exact absurd (hleast ⟨Nat.lt_trans hlt hid, hi⟩) (Nat.not_le_of_lt hlt)

theorem outlines_iff {b : Rect} (hb : l.bounds = some b) : l.Outlines d id ↔
    id < d.size ∧ ((d.attribute? id "bounds").map Text.trimmed == some b.render) := by
  simp [Outlines, hb]

theorem findByBounds_eq_some :
    l.findByBounds d = some id ↔ IsLeast {i | l.Outlines d i} id := by
  cases hb : l.bounds with
  | none =>
    have hnone : l.findByBounds d = none := by simp [findByBounds, hb]
    rw [hnone]
    exact ⟨nofun, fun hleast => absurd hleast.1 (not_outlines hb id)⟩
  | some b =>
    simp only [findByBounds, hb, Option.bind_eq_bind, Option.bind_some, find?_ids_eq_some,
      outlines_iff hb]

/-- The share that decides is the same for all elements but for what agrees. -/
theorem findByAttributes_eq (d : Document) (l : Locator) : l.findByAttributes d =
    (d.ids.find? fun i => decide (0 < l.asked ∧ l.asked ≤ 2 * l.agreeing d i)).map
      fun i => (i, ⟨l.agreeing d i, l.asked⟩) := by
  rw [List.find?_eq_findSome?_guard, List.map_findSome?, findByAttributes]
  congr 1
  funext i
  rw [Function.comp_apply, Option.map_guard, attributeScore_eq]
  by_cases hasked : l.asked = 0
  · simp [hasked]
  · simp [hasked, Nat.pos_of_ne_zero hasked, Option.filter, Score.accepted]

theorem findByAttributes_eq_some {s : Score} : l.findByAttributes d = some (id, s) ↔
    IsLeast {i | l.Suits d i} id ∧ s = ⟨l.agreeing d id, l.asked⟩ := by
  have hsuits : {i | l.Suits d i} =
      {i | i < d.size ∧ decide (0 < l.asked ∧ l.asked ≤ 2 * l.agreeing d i)} := by
    simp [Suits]
  simp only [findByAttributes_eq, Option.map_eq_some_iff, Prod.mk.injEq, find?_ids_eq_some, hsuits]
  constructor
  · rintro ⟨_, hleast, rfl, rfl⟩
    exact ⟨hleast, rfl⟩
  · rintro ⟨hleast, rfl⟩
    exact ⟨id, hleast, rfl, rfl⟩

theorem findByPath_eq_none : l.findByPath d = none ↔ ∀ i, ¬ l.LeadsTo d i := by
  simp only [Option.eq_none_iff_forall_ne_some, ne_eq, findByPath_eq_some]

theorem exists_isLeast {p : Nat → Prop} {i : Nat} (h : p i) : ∃ k, IsLeast {j | p j} k := by
  classical
  exact ⟨_, Nat.isLeast_find ⟨i, h⟩⟩

theorem forall_not_of_not_isLeast {p : Nat → Prop} (h : ∀ i, ¬ IsLeast {j | p j} i) (i : Nat) :
    ¬ p i := fun hi => (exists_isLeast hi).elim h

theorem findByBounds_eq_none : l.findByBounds d = none ↔ ∀ i, ¬ l.Outlines d i := by
  simp only [Option.eq_none_iff_forall_ne_some, ne_eq, findByBounds_eq_some]
  exact ⟨forall_not_of_not_isLeast, fun hnot i hi => hnot i hi.1⟩

theorem not_finds_of_isEmpty (hempty : l.isEmpty) (r : Resolved) : ¬ l.Finds d r := by
  obtain ⟨hxpath, hbounds, htraits⟩ := isEmpty_iff.mp hempty
  rintro (hid | ⟨-, hid, -⟩ | ⟨-, -, ⟨-, hasked, -⟩, -⟩)
  · exact not_leadsTo hxpath _ hid
  · exact not_outlines hbounds _ hid
  · rw [asked_eq_zero.mpr htraits] at hasked
    cases hasked

/-- A locator resolves to what the first tier that picks an element picks. -/
theorem resolve_eq_some {r : Resolved} : l.resolve d = some r ↔ l.Finds d r := by
  unfold resolve
  split
  · next hempty => simp [not_finds_of_isEmpty hempty r]
  · simp only [Option.orElse_eq_orElse, Option.orElse_eq_or, Option.or_eq_some_iff,
      Option.map_eq_some_iff, Option.map_eq_none_iff, findByPath_eq_some, findByPath_eq_none,
      findByBounds_eq_some, findByBounds_eq_none]
    constructor
    · rintro (⟨id, hid, rfl⟩ | ⟨hpath, ⟨id, hid, rfl⟩ | ⟨hbounds, ⟨id, s⟩, hid, rfl⟩⟩)
      · exact .byPath hid
      · exact .byBounds hpath hid
      · obtain ⟨hleast, rfl⟩ := findByAttributes_eq_some.mp hid
        exact .byAttributes hpath hbounds hleast
    · rintro (hid | ⟨hpath, hid⟩ | ⟨hpath, hbounds, hid⟩)
      · exact Or.inl ⟨_, hid, rfl⟩
      · exact Or.inr ⟨hpath, Or.inl ⟨_, hid, rfl⟩⟩
      · exact Or.inr ⟨hpath, Or.inr ⟨hbounds, _, findByAttributes_eq_some.mpr ⟨hid, rfl⟩, rfl⟩⟩

theorem resolve_eq_none : l.resolve d = none ↔
    ∀ i, ¬ l.LeadsTo d i ∧ ¬ l.Outlines d i ∧ ¬ l.Suits d i := by
  simp only [Option.eq_none_iff_forall_ne_some, ne_eq, resolve_eq_some]
  constructor
  · intro hno
    have hpath (i : Nat) : ¬ l.LeadsTo d i := fun hi => hno _ (.byPath hi)
    have hbounds : ∀ i, ¬ l.Outlines d i :=
      forall_not_of_not_isLeast fun _ hi => hno _ (.byBounds hpath hi)
    have hattributes : ∀ i, ¬ l.Suits d i :=
      forall_not_of_not_isLeast fun _ hi => hno _ (.byAttributes hpath hbounds hi)
    exact fun i => ⟨hpath i, hbounds i, hattributes i⟩
  · rintro hnone _ (hid | ⟨-, hid, -⟩ | ⟨-, -, hid, -⟩)
    · exact (hnone _).1 hid
    · exact (hnone _).2.1 hid
    · exact (hnone _).2.2 hid

end Tiers

/-- What a locator resolves to is what the first of its tiers picks that picks anything: the path
the owner of its first hit, the bounds and the attributes the first element that they fit. An empty
locator resolves to nothing, and so does one that no tier can serve; the only element with the
bounds of the locator is found whenever its path leads nowhere. -/
theorem resolve_by_tier (d : Document) (l : Locator) :
    (∀ r, l.resolve d = some r ↔ l.Finds d r) ∧
    (l.isEmpty → l.resolve d = none) ∧
    (l.resolve d = none ↔ ∀ i, ¬ l.LeadsTo d i ∧ ¬ l.Outlines d i ∧ ¬ l.Suits d i) ∧
    ∀ id, (∀ i, ¬ l.LeadsTo d i) → (∀ i, l.Outlines d i ↔ i = id) →
      l.resolve d = some ⟨id, d.summary id, .bounds, .full⟩ := by
  refine ⟨fun r => resolve_eq_some, fun hempty => if_pos hempty, resolve_eq_none,
    fun id hpath honly => ?_⟩
  have hleast : IsLeast {i | l.Outlines d i} id :=
    ⟨(honly id).mpr rfl, fun i hi => ((honly i).mp hi).ge⟩
  exact resolve_eq_some.mpr (.byBounds hpath hleast)

def buttons : Document where
  elements :=
    #[{ name := "hierarchy", attributes := [], parent := none, children := #[1, 2], depth := 0 },
      { name := "node", attributes := [⟨"text", "Pay"⟩, ⟨"bounds", " [0,0][9,9]\n"⟩]
        parent := some 0, depth := 1 },
      { name := "node", attributes := [⟨"text", "Cancel"⟩, ⟨"bounds", "[0,9][9,18]"⟩]
        parent := some 0, depth := 1 }]

theorem resolve_by_tier_buttons :
    let l : Locator :=
      { xpathField := some "//node[", textField := some "Cancel", bounds := some ⟨0, 0, 9, 9⟩ }
    Document.parse? ("<hierarchy><node text='Pay' bounds=' [0,0][9,9]\n'/>" ++
      "<node text='Cancel' bounds='[0,9][9,18]'/></hierarchy>") = some buttons ∧
    (∀ i, ¬ l.LeadsTo buttons i) ∧ (∀ i, l.Outlines buttons i ↔ i = 1) ∧
      l.resolve buttons = some ⟨1, buttons.summary 1, .bounds, .full⟩ := by
  intro l
  have hpath : ∀ i, ¬ l.LeadsTo buttons i := findByPath_eq_none.mp (by decide +kernel)
  have honly (i : Nat) : l.Outlines buttons i ↔ i = 1 := by
    have hother : ∀ i < 3, ((buttons.attribute? i "bounds").map Text.trimmed ==
        some (Rect.render ⟨0, 0, 9, 9⟩)) → i = 1 := by decide +kernel
    rw [outlines_iff rfl]
    constructor
    · exact fun ⟨hi, hbounds⟩ => hother i hi hbounds
    · rintro rfl
      exact ⟨by decide, by decide +kernel⟩
  exact ⟨by decide +kernel, hpath, honly, (resolve_by_tier buttons l).2.2.2 1 hpath honly⟩

end Replay.Locator
