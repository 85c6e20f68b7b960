import Replay.Proofs.Locator.Tiers
import Replay.Proofs.Pool.Restoration
import Replay.Proofs.Recovery.Severity
import Replay.Recovery.Source
set_option autoImplicit false

/-!
What a step finds among the snapshots of its own script. The siblings are the snapshots that are
valid as the steps carry them (`mem_siblings_validateScript`). A step is looked up by its title and
its app without the blanks around them (`LookupKey.ofStep_of_nonblank`), while a sibling is compared
with all its blanks, so that a step finds the siblings on its own page exactly if that page has no
blanks around its names (`sibling_found_iff`).
-/

namespace Replay.Recovery

/-- Both snapshots were captured on one page of one app, by their names as written. -/
def SamePage (s t : Snapshot) : Prop :=
  t.page.title = s.page.title ∧ t.device.appPackage = s.device.appPackage

instance (s t : Snapshot) : Decidable (SamePage s t) := inferInstanceAs (Decidable (_ ∧ _))

namespace LookupKey

theorem ofStep_of_nonblank {step : Step} {s : Snapshot} (hs : step.snapshot = some s)
    (htitle : Text.isBlankText s.page.title = false)
    (happ : Text.isBlankText s.device.appPackage = false) :
    ofStep step = some ⟨Text.trimmed s.device.appPackage, Text.trimmed s.page.title⟩ := by
  have hnonblank {v : String} (hv : Text.isBlankText v = false) :
      nonBlank v = some (Text.trimmed v) := Locator.present_of_nonblank hv
  simp [ofStep, hs, hnonblank htitle, hnonblank happ]

theorem fits_iff {key : LookupKey} {t : Snapshot} :
    key.fits t ↔ t.device.appPackage = key.appPackage ∧ t.page.title = key.pageTitle := by
  simp [fits]

end LookupKey

theorem Source.names_of_sibling {turn : Nat} {key : LookupKey} {snapshots : List Snapshot}
    {found : Snapshot} (h : (ofSiblings snapshots).lookup turn key = some found) :
    found.device.appPackage = key.appPackage ∧ found.page.title = key.pageTitle :=
  LookupKey.fits_iff.mp (List.find?_some h)

section Validation

variable {limits : Limits} {now : Instant} {script : Script} {i : Nat} {other : Step}

theorem getElem?_validateScript_restoreStep :
    (validateScript limits now script).steps[i]? = script.steps[i]?.map fun step =>
      validateStep limits now i ((script.pool.getD []).restoreStep step) := by
  rw [getElem?_validateScript, Script.steps_restore, List.getElem?_map, Option.map_map]
  rfl

/-- What the report on a step says of a snapshot with content is said of the snapshot itself. -/
theorem snapshot_validateStep_restoreStep (pool : Pool) {t : Snapshot}
    (hs : other.snapshot = some t) (hc : t.hasContent) :
    (validateStep limits now i (pool.restoreStep other)).snapshot =
      some (validateSnapshot limits now t) := by
  simp [validateStep, Pool.restoreStep, hs, Pool.restoreSnapshot_of_hasContent hc]

/-- Also in a script whose contents are pooled: a reference is no sibling, whatever the pool has for
it. -/
theorem mem_siblings_validateScript {t : Snapshot} :
    t ∈ siblings script (validateScript limits now script).steps ↔
      ∃ other ∈ script.steps, other.snapshot = some t ∧
        (validateSnapshot limits now t).isValid := by
  simp only [siblings, List.mem_filterMap, List.mem_filter]
  constructor
  · rintro ⟨r, ⟨hr, hvalid⟩, ht⟩
    obtain ⟨i, hi⟩ := List.mem_iff_getElem?.mp hr
    rw [getElem?_validateScript_restoreStep] at hi
    obtain ⟨other, hother, rfl⟩ := Option.map_eq_some_iff.mp hi
    obtain ⟨hs, hc⟩ := Option.filter_eq_some_iff.mp ht
    replace hs : script.steps[i]?.bind (·.snapshot) = some t := hs
    rw [hother, Option.bind_some] at hs
    rw [snapshot_validateStep_restoreStep _ hs hc] at hvalid
    exact ⟨other, List.mem_of_getElem? hother, hs, hvalid⟩
  · rintro ⟨other, hother, hs, hvalid⟩
    obtain ⟨i, hi⟩ := List.mem_iff_getElem?.mp hother
    have hc := Engine.hasContent_of_valid hvalid
    have hr : (validateScript limits now script).steps[i]? =
        some (validateStep limits now i ((script.pool.getD []).restoreStep other)) := by
      rw [getElem?_validateScript_restoreStep, hi, Option.map_some]
    refine ⟨_, ⟨List.mem_of_getElem? hr, ?_⟩, ?_⟩
    · rw [snapshot_validateStep_restoreStep _ hs hc]
      exact hvalid
    · change (script.steps[i]?.bind (·.snapshot)).filter (·.hasContent) = some t
      rw [hi, Option.bind_some, hs, Option.filter_some, if_pos hc]

end Validation

/-- Of a step whose page and app have names: it is looked up by the names without the blanks around
them, and what the siblings answer is a snapshot of its own page exactly if there are no blanks to
take away and some step, be it this one, carries a valid snapshot of that page. -/
theorem sibling_found_iff (limits : Limits) (now : Instant) (script : Script) (turn : Nat)
    {step : Step} {s : Snapshot} (hs : step.snapshot = some s)
    (htitle : Text.isBlankText s.page.title = false)
    (happ : Text.isBlankText s.device.appPackage = false) :
    ∃ key, LookupKey.ofStep step = some key ∧
      ((∃ found, (Source.ofSiblings
          (siblings script (validateScript limits now script).steps)).lookup turn key =
            some found ∧ SamePage s found) ↔
        Text.trimmed s.page.title = s.page.title ∧
        Text.trimmed s.device.appPackage = s.device.appPackage ∧
        ∃ other ∈ script.steps, ∃ t, other.snapshot = some t ∧
          (validateSnapshot limits now t).isValid ∧ SamePage s t) := by
  refine ⟨_, LookupKey.ofStep_of_nonblank hs htitle happ, ?_⟩
  constructor
  · rintro ⟨found, hfound, hpage⟩
    obtain ⟨other, hother, hsnapshot, hvalid⟩ :=
      mem_siblings_validateScript.mp (List.mem_of_find?_eq_some hfound)
    obtain ⟨hfitsApp, hfitsTitle⟩ := Source.names_of_sibling hfound
    exact ⟨hfitsTitle.symm.trans hpage.1, hfitsApp.symm.trans hpage.2,
      other, hother, found, hsnapshot, hvalid, hpage⟩
  · rintro ⟨hbareTitle, hbareApp, other, hother, t, ht, hvalid, hpage⟩
    rw [hbareTitle, hbareApp]
    have hmem := mem_siblings_validateScript.mpr ⟨other, hother, ht, hvalid⟩
    have hanswer := (List.find?_isSome
      (p := LookupKey.fits ⟨s.device.appPackage, s.page.title⟩)).mpr
      ⟨t, hmem, LookupKey.fits_iff.mpr ⟨hpage.2, hpage.1⟩⟩
    obtain ⟨found, hfound⟩ := Option.isSome_iff_exists.mp hanswer
    obtain ⟨hfitsApp, hfitsTitle⟩ := LookupKey.fits_iff.mp (List.find?_some hfound)
    exact ⟨found, hfound, hfitsTitle, hfitsApp⟩

def cartPage (title : String) : Snapshot where
  content := "<?xml version=\"1.0\" encoding=\"UTF-8\"?><hierarchy rotation=\"0\">" ++
    "<node class=\"android.widget.FrameLayout\" bounds=\"[0,0][1080,2340]\"/></hierarchy>"
  device := { appPackage := "com.shop" }
  page := { title }

def cartScript (title : String) : Script where
  steps := [
    { id := "open", snapshot := some (cartPage title) },
    { id := "buy", snapshot := some { cartPage title with content := "" } }]

theorem isValid_cartPage (title : String) (now : Instant) :
    (validateSnapshot {} now (cartPage title)).isValid := by
  have hcart : (validateSnapshot {} ⟨0, 0⟩ (cartPage "Cart")).isValid := by decide +kernel
  have hcontent : (cartPage title).content = (cartPage "Cart").content := rfl
  exact (isValid_of_content_eq {} now ⟨0, 0⟩ hcontent).trans hcart

theorem sibling_found_iff_cart :
    LookupKey.ofStep (cartScript "Cart").steps[1] = some ⟨"com.shop", "Cart"⟩ ∧
      ∃ found, (Source.ofSiblings (siblings (cartScript "Cart")
        (validateScript {} ⟨0, 0⟩ (cartScript "Cart")).steps)).lookup 1 ⟨"com.shop", "Cart"⟩ =
          some found ∧ SamePage (cartPage "Cart") found := by
  have hsnapshot : (cartScript "Cart").steps[1].snapshot =
      some { cartPage "Cart" with content := "" } := rfl
  obtain ⟨key, hkey, hfound⟩ :=
    sibling_found_iff {} ⟨0, 0⟩ (cartScript "Cart") 1 hsnapshot (by decide) (by decide)
  have hnamed : LookupKey.ofStep (cartScript "Cart").steps[1] = some ⟨"com.shop", "Cart"⟩ := by
    decide +kernel
  obtain rfl : key = ⟨"com.shop", "Cart"⟩ := Option.some.inj (hkey.symm.trans hnamed)
  refine ⟨hnamed, hfound.mpr ⟨by decide, by decide, ?_⟩⟩
  exact ⟨_, List.mem_cons_self, cartPage "Cart", rfl, isValid_cartPage _ _, rfl, rfl⟩

/-- A title with blanks around it is looked up without them, and the step that shows the page is
missed. -/
theorem sibling_missed_padded :
    ¬ ∀ (limits : Limits) (now : Instant) (script : Script) (i j : Nat) (step other : Step)
      (s t : Snapshot), i ≠ j → script.steps[i]? = some step → script.steps[j]? = some other →
      step.snapshot = some s → Text.isBlankText s.page.title = false →
      Text.isBlankText s.device.appPackage = false → other.snapshot = some t →
      (validateSnapshot limits now t).isValid → SamePage s t →
      ∃ key, LookupKey.ofStep step = some key ∧ ∃ found, (Source.ofSiblings
        (siblings script (validateScript limits now script).steps)).lookup i key = some found ∧
          SamePage s found := by
  intro h
  obtain ⟨key, hkey, found, hfound, hpage⟩ := h {} ⟨0, 0⟩ (cartScript " Cart ") 1 0 _ _ _
    (cartPage " Cart ") (by decide) rfl rfl rfl (by decide) (by decide) rfl
    (isValid_cartPage _ _) ⟨rfl, rfl⟩
  have hnamed : LookupKey.ofStep (cartScript " Cart ").steps[1] = some ⟨"com.shop", "Cart"⟩ := by
    decide +kernel
  obtain rfl : key = ⟨"com.shop", "Cart"⟩ := Option.some.inj (hkey.symm.trans hnamed)
  -- What is found has the title of the key, and so not that of the page.
  have htitle : found.page.title = "Cart" := (Source.names_of_sibling hfound).2
  have hpadded : found.page.title = " Cart " := hpage.1
  exact absurd (htitle.symm.trans hpadded) (by decide)

end Replay.Recovery
