import Replay.Proofs.Locator.Tiers
set_option autoImplicit false

/-!
What the attributes of a refreshed locator find. The locator asks for the values of the element
without the blanks around them, and an element is compared with all its blanks, so that a value with
blanks around it does not agree with itself (`agreeing_refreshed`). Attributes lead back to their
element, or to one before it, as long as no more of them have such values than have others; else it
takes an element before it (`found_by_own_attributes`).
-/

namespace Replay.Locator

open Xml (Document)

def attributesOnly (l : Locator) : Locator := { l with xpathField := none, bounds := none }

def isBare (v : String) : Bool := !Text.isBlankText v && Text.trimmed v == v

/-- Something stands in the value, with blanks around it. -/
def isPadded (v : String) : Bool := !Text.isBlankText v && Text.trimmed v != v

def countTraits (d : Document) (id : Nat) (kind : String → Bool) : Nat :=
  Trait.all.countP fun t => (d.attribute? id t.key).any kind

section Refreshed

variable {d : Document} {r : Resolved} (hr : r.element = d.summary r.node)
include hr

theorem field_refreshed (t : Trait) :
    (ofResolved r).attributesOnly.field t = d.nonEmpty? r.node t.key := by
  cases t with
  | resourceId => exact congrArg Xml.Summary.resourceId hr
  | text => exact congrArg Xml.Summary.text hr
  | contentDesc => exact congrArg Xml.Summary.contentDesc hr
  | className => exact congrArg Xml.Summary.className hr

theorem trait?_refreshed (t : Trait) :
    (ofResolved r).attributesOnly.trait? t = present (d.attribute? r.node t.key) := by
  rw [trait?, field_refreshed hr, Document.nonEmpty?]
  cases d.attribute? r.node t.key with
  | none => rfl
  | some v =>
    by_cases hv : v = ""
    · subst hv
      rfl
    · rw [Option.filter_some, if_pos (by simp [hv])]

theorem agreeing_refreshed :
    (ofResolved r).attributesOnly.agreeing d r.node = countTraits d r.node isBare := by
  refine List.countP_congr fun t _ => ?_
  rw [trait?_refreshed hr]
  cases d.attribute? r.node t.key with
  | none => rfl
  | some v =>
    rw [present_some]
    cases hblank : Text.isBlankText v <;> simp [isBare, hblank, eq_comm (a := v)]

theorem asked_refreshed : (ofResolved r).attributesOnly.asked =
    countTraits d r.node isBare + countTraits d r.node isPadded := by
  let asks (t : Trait) : Bool := ((ofResolved r).attributesOnly.trait? t).isSome
  let bare (t : Trait) : Bool := (d.attribute? r.node t.key).any isBare
  have hkinds (t : Trait) : (asks t && bare t) = bare t ∧
      (asks t && !bare t) = (d.attribute? r.node t.key).any isPadded := by
    simp only [asks, bare, trait?_refreshed hr]
    cases d.attribute? r.node t.key with
    | none => exact ⟨rfl, rfl⟩
    | some v =>
      rw [present_some]
      cases hblank : Text.isBlankText v <;> simp [isBare, isPadded, hblank, bne]
  rw [asked, List.countP_eq_countP_filter_add _ _ bare, List.countP_filter, List.countP_filter]
  exact congrArg₂ (· + ·) (List.countP_congr fun t _ => by rw [(hkinds t).1])
    (List.countP_congr fun t _ => by rw [(hkinds t).2])

theorem asked_refreshed_pos {t : Trait} {v : String} (hv : d.attribute? r.node t.key = some v)
    (hblank : Text.isBlankText v = false) : 0 < (ofResolved r).attributesOnly.asked := by
  have hasks : (ofResolved r).attributesOnly.trait? t = some (Text.trimmed v) := by
    rw [trait?_refreshed hr, hv, present_of_nonblank hblank]
  exact asked_pos hasks

end Refreshed

/-- The attributes of an element, as a refreshed locator asks for them, lead to that element or to
one before it exactly if no more of them have blanks around their values than have none, or an
element before it has half of what is asked for. If more of them have, the element itself is not
what they lead to. -/
theorem found_by_own_attributes {d : Document} {r : Resolved} (hr : r.element = d.summary r.node)
    (hid : r.node < d.size) {t : Trait} {v : String} (hv : d.attribute? r.node t.key = some v)
    (hblank : Text.isBlankText v = false) :
    let l := (ofResolved r).attributesOnly
    ((∃ again, l.resolve d = some again ∧ again.node ≤ r.node) ↔
      countTraits d r.node isPadded ≤ countTraits d r.node isBare ∨
        ∃ i < r.node, l.Suits d i) ∧
    (countTraits d r.node isBare < countTraits d r.node isPadded →
      ∀ again, l.resolve d = some again → again.node ≠ r.node) := by
  intro l
  have hown : l.Suits d r.node ↔
      countTraits d r.node isPadded ≤ countTraits d r.node isBare := by
    rw [Suits, and_iff_right hid, and_iff_right (asked_refreshed_pos hr hv hblank),
      asked_refreshed hr, agreeing_refreshed hr]
    omega
  have hsuits {again : Resolved} (hagain : l.resolve d = some again) : l.Suits d again.node := by
    obtain hfound | ⟨-, hfound, -⟩ | ⟨-, -, hfound, -⟩ := resolve_eq_some.mp hagain
    · exact absurd hfound (not_leadsTo rfl _)
    · exact absurd hfound (not_outlines rfl _)
    · exact hfound
  -- The first element that suits is found, so that any one up to the own element will do.
  have hfinds {i : Nat} (hi : l.Suits d i) (hle : i ≤ r.node) :
      ∃ again, l.resolve d = some again ∧ again.node ≤ r.node := by
    obtain ⟨id, hleast⟩ := exists_isLeast hi
    exact ⟨_, resolve_eq_some.mpr (.byAttributes (not_leadsTo rfl) (not_outlines rfl) hleast),
      Nat.le_trans (hleast.2 hi) hle⟩
  refine ⟨⟨?_, ?_⟩, fun hlt again hagain hnode => ?_⟩
  · rintro ⟨again, hagain, hle⟩
    obtain hlt | hnode := Nat.lt_or_eq_of_le hle
    · exact Or.inr ⟨again.node, hlt, hsuits hagain⟩
    · exact Or.inl (hown.mp (hnode ▸ hsuits hagain))
  · rintro (hle | ⟨i, hlt, hi⟩)
    · exact hfinds (hown.mpr hle) (Nat.le_refl _)
    · exact hfinds hi (Nat.le_of_lt hlt)
  · exact Nat.not_le_of_lt hlt (hown.mp (hnode ▸ hsuits hagain))

def labels : Document where
  elements :=
    #[{ name := "hierarchy", attributes := [], parent := none, children := #[1, 2, 3], depth := 0 },
      { name := "node", attributes := [⟨"text", "Menu"⟩, ⟨"class", "Button"⟩], parent := some 0
        depth := 1 },
      { name := "node", attributes := [⟨"text", " Save "⟩, ⟨"class", "Button"⟩], parent := some 0
        depth := 1 },
      { name := "node", attributes := [⟨"text", " Save "⟩], parent := some 0, depth := 1 }]

theorem found_by_own_attributes_labels :
    countTraits labels 2 isPadded = 1 ∧ countTraits labels 2 isBare = 1 ∧
      ∃ again, (ofResolved ⟨2, labels.summary 2, .xpath, .full⟩).attributesOnly.resolve labels =
        some again ∧ again.node ≤ 2 := by
  have hcount : countTraits labels 2 isPadded = 1 ∧ countTraits labels 2 isBare = 1 := by
    decide +kernel
  have hown := found_by_own_attributes (d := labels) (r := ⟨2, labels.summary 2, .xpath, .full⟩) rfl
    (by decide) (t := .text) (v := " Save ") (by decide +kernel) (by decide +kernel)
  exact ⟨hcount.1, hcount.2, hown.1.mpr (Or.inl (by rw [hcount.1, hcount.2]))⟩

theorem not_found_by_padded_label :
    Document.parse? ("<hierarchy><node text='Menu' class='Button'/>" ++
      "<node text=' Save ' class='Button'/><node text=' Save '/></hierarchy>") = some labels ∧
      labels.attribute? 3 "text" = some " Save " ∧ Text.isBlankText " Save " = false ∧
      (ofResolved ⟨3, labels.summary 3, .xpath, .full⟩).attributesOnly.resolve labels = none := by
  decide +kernel

end Replay.Locator
