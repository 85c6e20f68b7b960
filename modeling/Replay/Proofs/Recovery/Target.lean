import Replay.Proofs.Locator.Tiers
import Replay.Proofs.Recovery.Synthetic
import Replay.Proofs.Rect
set_option autoImplicit false

/-!
The target of a generated hierarchy. It carries what its locator says, without the blanks around it
(`syntheticHierarchy_carries`), and is what the locator resolves to, unless the frame, which comes
before it, serves the locator too (`resolveIn_syntheticHierarchy`).
-/

namespace Replay.Recovery

open Xml (Document)

namespace Synthetic

def blankValue : Locator.Trait → String
  | .className => "android.widget.TextView"
  | .resourceId | .text | .contentDesc => ""

def frameBounds (screen : ScreenSize) : String :=
  Rect.coordinates 0 0 screen.width screen.height

section Elements

variable (step : Step) (app : String) (screen : ScreenSize)

theorem attribute?_root (t : Locator.Trait) :
    (document step app screen).attribute? 0 t.key = none := by
  cases t <;> rfl

theorem attribute?_frame (t : Locator.Trait) : (document step app screen).attribute? 1 t.key =
    some (if t = .className then "android.widget.FrameLayout" else "") := by
  cases t <;> rfl

theorem attribute?_target (t : Locator.Trait) : (document step app screen).attribute? 2 t.key =
    some ((step.locator.trait? t).getD (blankValue t)) := by
  cases t <;> rfl

theorem bounds_root : (document step app screen).attribute? 0 "bounds" = none := rfl

theorem bounds_frame :
    (document step app screen).attribute? 1 "bounds" = some (frameBounds screen) := by
  have hcorner : "[" ++ toString (0 : Int) ++ "," ++ toString (0 : Int) ++ "][" = "[0,0][" := by
    decide +kernel
  have hframe : frameBounds screen = "[" ++ toString (0 : Int) ++ "," ++ toString (0 : Int) ++
      "][" ++ toString screen.width ++ "," ++ toString screen.height ++ "]" := rfl
  rw [hframe, hcorner]
  rfl

theorem bounds_target : (document step app screen).attribute? 2 "bounds" =
    some (step.locator.bounds.getD defaultBounds).render := rfl

end Elements

/-- The locator has the bounds of the frame. -/
def FillsScreen (b : Rect) (screen : ScreenSize) : Prop :=
  b.left.toInt = 0 ∧ b.top.toInt = 0 ∧ b.right.toInt = screen.width ∧
    b.bottom.toInt = screen.height

theorem render_eq_frameBounds {b : Rect} {screen : ScreenSize} :
    b.render = frameBounds screen ↔ FillsScreen b screen := by
  rw [Rect.render_eq_coordinates, frameBounds]
  constructor
  · exact Rect.coordinates_inj
  · rintro ⟨hleft, htop, hright, hbottom⟩
    rw [hleft, htop, hright, hbottom]

/-- The frame serves the locator as well as the target: it has its bounds, or, if none are given,
its class and with that at least half of what is asked for. -/
def Eclipsed (l : Locator) (screen : ScreenSize) : Prop :=
  match l.bounds with
  | some b => FillsScreen b screen
  | none => l.className = some "android.widget.FrameLayout" ∧ l.asked ≤ 2

section Tiers

variable (step : Step) (app : String) (screen : ScreenSize)

theorem not_outlines_root : ¬ step.locator.Outlines (document step app screen) 0 := by
  rintro ⟨-, b, v, -, hv, -⟩
  rw [bounds_root] at hv
  cases hv

theorem outlines_frame : step.locator.Outlines (document step app screen) 1 ↔
    ∃ b, step.locator.bounds = some b ∧ FillsScreen b screen := by
  constructor
  · rintro ⟨-, b, v, hb, hv, hrender⟩
    rw [bounds_frame] at hv
    obtain rfl := Option.some.inj hv
    rw [frameBounds, Rect.trimmed_coordinates] at hrender
    exact ⟨b, hb, render_eq_frameBounds.mp hrender.symm⟩
  · rintro ⟨b, hb, hfills⟩
    refine ⟨(by decide : 1 < 3), b, frameBounds screen, hb, bounds_frame .., ?_⟩
    rw [render_eq_frameBounds.mpr hfills, frameBounds, Rect.trimmed_coordinates]

theorem outlines_target : step.locator.Outlines (document step app screen) 2 ↔
    step.locator.bounds.isSome := by
  constructor
  · rintro ⟨-, b, -, hb, -⟩
    rw [hb]
    rfl
  · intro h
    obtain ⟨b, hb⟩ := Option.isSome_iff_exists.mp h
    refine ⟨(by decide : 2 < 3), b, b.render, hb, ?_, ?_⟩
    · rw [bounds_target, hb, Option.getD_some]
    · rw [Rect.render_eq_coordinates, Rect.trimmed_coordinates]

theorem agreeing_target :
    step.locator.agreeing (document step app screen) 2 = step.locator.asked := by
  refine List.countP_congr fun t _ => ?_
  rw [attribute?_target]
  cases step.locator.trait? t <;> simp

theorem agreeing_frame : step.locator.agreeing (document step app screen) 1 =
    if step.locator.className = some "android.widget.FrameLayout" then 1 else 0 := by
  have hother (t : Locator.Trait) (ht : t ≠ .className) : ((step.locator.trait? t).any fun v =>
      (document step app screen).attribute? 1 t.key == some v) = false := by
    rw [attribute?_frame, if_neg ht]
    cases hv : step.locator.trait? t with
    | none => rfl
    | some v =>
      have hne := Locator.ne_empty_of_trait? hv
      simp [Ne.symm hne]
  have hclass : ((step.locator.trait? .className).any fun v =>
      (document step app screen).attribute? 1 Locator.Trait.className.key == some v) =
        decide (step.locator.className = some "android.widget.FrameLayout") := by
    rw [attribute?_frame, if_pos rfl]
    change (step.locator.className.any _) = _
    cases step.locator.className with
    | none => rfl
    | some v => simp [beq_eq_decide, eq_comm (a := v)]
  simp [Locator.agreeing, Locator.Trait.all, List.countP_cons, hother, hclass]

theorem agreeing_root : step.locator.agreeing (document step app screen) 0 = 0 := by
  refine List.countP_eq_zero.mpr fun t _ => ?_
  rw [attribute?_root]
  cases step.locator.trait? t <;> simp

theorem suits_target : step.locator.Suits (document step app screen) 2 ↔
    0 < step.locator.asked := by
  rw [Locator.Suits, agreeing_target]
  exact ⟨fun h => h.2.1, fun h => ⟨(by decide : 2 < 3), h, by omega⟩⟩

theorem suits_frame : step.locator.Suits (document step app screen) 1 ↔
    step.locator.className = some "android.widget.FrameLayout" ∧ step.locator.asked ≤ 2 := by
  rw [Locator.Suits, agreeing_frame]
  split
  · next hclass =>
    have hasked : 0 < step.locator.asked := Locator.asked_pos (t := .className) hclass
    exact ⟨fun h => ⟨hclass, h.2.2⟩, fun h => ⟨(by decide : 1 < 3), hasked, h.2⟩⟩
  · next hclass =>
    exact ⟨fun h => by omega, fun h => absurd h.1 hclass⟩

theorem not_suits_root : ¬ step.locator.Suits (document step app screen) 0 := by
  rw [Locator.Suits, agreeing_root]
  omega

end Tiers

theorem exists_isLeast_served {p : Nat → Prop} (hroot : ¬ p 0) (htarget : p 2) :
    ∃ id, IsLeast {i | p i} id ∧ (p 1 → id = 1) ∧ (¬ p 1 → id = 2) := by
  by_cases hframe : p 1
  · have hleast : IsLeast {i | p i} 1 :=
      ⟨hframe, fun i hi => Nat.pos_of_ne_zero fun hzero => hroot (hzero ▸ hi)⟩
    exact ⟨1, hleast, fun _ => rfl, absurd hframe⟩
  · refine ⟨2, ⟨htarget, fun i hi => ?_⟩, fun h => absurd h hframe, fun _ => rfl⟩
    match i with
    | 0 => exact absurd hi hroot
    | 1 => exact absurd hi hframe
    | i + 2 => exact Nat.le_add_left 2 i

/-- A locator without a path resolves to the target, unless the frame serves it too. -/
theorem exists_resolve_document {step : Step} (app : String) (screen : ScreenSize)
    (hpath : step.locator.xpath = none)
    (hgiven : step.locator.bounds.isSome ∨ 0 < step.locator.asked) :
    ∃ r, step.locator.resolve (document step app screen) = some r ∧
      (Eclipsed step.locator screen → r.node = 1) ∧
      (¬ Eclipsed step.locator screen → r.node = 2) := by
  cases hb : step.locator.bounds with
  | some b =>
    have heclipsed : Eclipsed step.locator screen ↔
        step.locator.Outlines (document step app screen) 1 := by
      simp [outlines_frame, Eclipsed, hb]
    obtain ⟨id, hleast, hframe, htarget⟩ := exists_isLeast_served
      (not_outlines_root step app screen) ((outlines_target step app screen).mpr (by simp [hb]))
    exact ⟨_, Locator.resolve_eq_some.mpr (.byBounds (Locator.not_leadsTo hpath) hleast),
      fun h => hframe (heclipsed.mp h), fun h => htarget (mt heclipsed.mpr h)⟩
  | none =>
    have heclipsed : Eclipsed step.locator screen ↔
        step.locator.Suits (document step app screen) 1 := by
      rw [suits_frame, Eclipsed, hb]
    obtain ⟨id, hleast, hframe, htarget⟩ := exists_isLeast_served
      (not_suits_root step app screen)
      ((suits_target step app screen).mpr (hgiven.resolve_left (by simp [hb])))
    exact ⟨_, Locator.resolve_eq_some.mpr
      (.byAttributes (Locator.not_leadsTo hpath) (Locator.not_outlines hb) hleast),
      fun h => hframe (heclipsed.mp h), fun h => htarget (mt heclipsed.mpr h)⟩

def carried (l : Locator) (t : Locator.Trait) : String :=
  let said := Text.trimmed ((l.field t).getD "")
  if said = "" then blankValue t else said

theorem getD_trait? (l : Locator) (t : Locator.Trait) :
    (l.trait? t).getD (blankValue t) = carried l t := by
  rw [Locator.trait?, carried]
  cases l.field t with
  | none => rfl
  | some v =>
    rw [Locator.present_some, Option.getD_some]
    by_cases hblank : Text.isBlankText v
    · simp [hblank, Text.trimmed_eq_empty.mpr hblank]
    · simp [hblank, mt Text.trimmed_eq_empty.mp hblank]

end Synthetic

open Synthetic

/-- Whatever stands in the locator and in the app, what is generated is a document of three
elements, each in the one before. The last one carries what the locator says of each attribute
without the blanks around it, or what stands for it, the app and the bounds of the locator or the
default ones; the one around it has the bounds of the screen. -/
theorem syntheticHierarchy_carries (step : Step) (app : String) (screen : ScreenSize) :
    ∃ d, Document.parse? (syntheticHierarchy step app screen) = some d ∧
      d.ids.map d.name = ["hierarchy", "node", "node"] ∧
      d.ids.map d.parent? = [none, some 0, some 1] ∧ d.ids.map d.children = [[1], [2], []] ∧
      (∀ t : Locator.Trait, d.attribute? 2 t.key = some (carried step.locator t)) ∧
      d.attribute? 2 "package" = some app ∧
      d.attribute? 2 "bounds" = some (step.locator.bounds.getD defaultBounds).render ∧
      d.bounds? 2 = some (step.locator.bounds.getD defaultBounds) ∧
      d.attribute? 1 "bounds" = some s!"[0,0][{screen.width},{screen.height}]" := by
  have htraits (t : Locator.Trait) :
      (document step app screen).attribute? 2 t.key = some (carried step.locator t) := by
    rw [attribute?_target, getD_trait?]
  have hbounds : (document step app screen).bounds? 2 =
      some (step.locator.bounds.getD defaultBounds) := by
    rw [Document.bounds?, bounds_target, Option.bind_eq_bind, Option.bind_some, Rect.parse?_render]
  exact ⟨_, parse?_syntheticHierarchy step app screen, rfl, rfl, rfl, htraits, rfl,
    bounds_target .., hbounds, rfl⟩

/-- A locator without a path, but with bounds or an attribute, resolves to the target that is
generated for it, the innermost element, unless the frame serves it too, which comes first and then
is found. -/
theorem resolveIn_syntheticHierarchy {step : Step} (app : String) (screen : ScreenSize)
    (hpath : step.locator.xpath = none)
    (hgiven : step.locator.bounds.isSome ∨
      ∃ t v, step.locator.field t = some v ∧ Text.isBlankText v = false) :
    ∃ d r, Document.parse? (syntheticHierarchy step app screen) = some d ∧
      d.ids.map d.children = [[1], [2], []] ∧
      step.locator.resolveIn (syntheticHierarchy step app screen) = some r ∧
      r.element = d.summary r.node ∧
      (¬ Eclipsed step.locator screen → r.node = 2) ∧
      (Eclipsed step.locator screen → r.node = 1) := by
  have hasked : step.locator.bounds.isSome ∨ 0 < step.locator.asked := by
    refine hgiven.imp_right fun ⟨t, v, hv, hblank⟩ => ?_
    have hasks : step.locator.trait? t = some (Text.trimmed v) := by
      rw [Locator.trait?, hv, Locator.present_of_nonblank hblank]
    exact Locator.asked_pos hasks
  obtain ⟨r, hr, hframe, htarget⟩ := exists_resolve_document app screen hpath hasked
  have hparse := parse?_syntheticHierarchy step app screen
  have helement : r.element = (document step app screen).summary r.node := by
    cases Locator.resolve_eq_some.mp hr <;> rfl
  refine ⟨_, r, hparse, rfl, ?_, helement, htarget, hframe⟩
  rw [Locator.resolveIn, hparse]
  exact hr

def payStep : Step where
  id := "pay"
  locator :=
    { textField := some " Pay & go ", resourceIdField := some "id/pay"
      classNameField := some "android.widget.FrameLayout" }

theorem resolveIn_syntheticHierarchy_payStep : ¬ Eclipsed payStep.locator defaultScreen ∧
    ∃ d r, Document.parse? (syntheticHierarchy payStep "com.shop" defaultScreen) = some d ∧
      payStep.locator.resolveIn (syntheticHierarchy payStep "com.shop" defaultScreen) = some r ∧
      r.node = 2 := by
  have hclear : ¬ Eclipsed payStep.locator defaultScreen := by
    rintro ⟨-, hasked⟩
    exact absurd hasked (by decide +kernel)
  have hxpath : payStep.locator.xpath = none := rfl
  obtain ⟨d, r, hparse, -, hresolve, -, htarget, -⟩ := resolveIn_syntheticHierarchy "com.shop"
    defaultScreen hxpath (Or.inr ⟨.text, " Pay & go ", rfl, by decide +kernel⟩)
  exact ⟨hclear, d, r, hparse, hresolve, htarget hclear⟩

def fullScreenStep : Step where
  id := "play"
  locator := { textField := some "Play", bounds := some ⟨0, 0, 1080, 2340⟩ }

/-- The frame has the same bounds and comes first, though it has not the text. -/
theorem frame_found_fullScreenStep : fullScreenStep.locator.xpath = none ∧
    fullScreenStep.locator.bounds.isSome ∧
    (fullScreenStep.locator.resolveIn (syntheticHierarchy fullScreenStep "com.video"
      defaultScreen)).map (fun r => (r.node, r.element.text)) = some (1, none) := by
  rw [Locator.resolveIn, parse?_syntheticHierarchy]
  decide +kernel

end Replay.Recovery
