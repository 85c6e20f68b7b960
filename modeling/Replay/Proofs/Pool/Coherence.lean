import Replay.Proofs.Pool.Restoration
set_option autoImplicit false

/-!
Content and hash stay in step. A snapshot with a content bears the hash of that content
(`Snapshot.Coherent`), or else a later look into a pool drops or swaps what it shows. The pool keeps
this both ways (`Script.Coherent.optimize`, `Script.Coherent.restore`), whatever the pool holds.
-/

namespace Replay

/-- A snapshot with content bears the hash of that content. -/
def Snapshot.Coherent (s : Snapshot) : Prop := s.content = "" ∨ s.hash = .of s.content

instance (s : Snapshot) : Decidable s.Coherent := inferInstanceAs (Decidable (_ ∨ _))

namespace Snapshot

theorem coherent_asReference (s : Snapshot) : s.asReference.Coherent := Or.inl rfl

theorem coherent_ofContent {s : Snapshot} (h : s.hash = .ofContent s.content) : s.Coherent := by
  by_cases hempty : s.content = ""
  · exact Or.inl hempty
  · exact Or.inr (by simp [h, ContentHash.ofContent, hempty])

theorem coherent_withContent (s : Snapshot) (content : String) :
    (s.withContent content).Coherent := coherent_ofContent rfl

theorem Coherent.of_eq {s t : Snapshot} (h : s.Coherent) (hcontent : t.content = s.content)
    (hhash : t.hash = s.hash) : t.Coherent := by
  rwa [Coherent, hcontent, hhash]

theorem Coherent.repairedBy {s : Snapshot} (h : s.Coherent) (strategy : StrategyId)
    (now : Instant) : (s.repairedBy strategy now).Coherent := h

end Snapshot

def Script.Coherent (script : Script) : Prop :=
  ∀ step ∈ script.steps, ∀ s, step.snapshot = some s → s.Coherent

namespace Pool

theorem coherent_store (pool : Pool) {s : Snapshot} (h : s.Coherent) :
    (store pool s).2.Coherent := by
  obtain ⟨-, hkept⟩ | ⟨-, e, hmoved, -⟩ := store_cases pool s
  · rwa [hkept]
  · rw [hmoved]
    exact Snapshot.coherent_asReference _

theorem coherent_storeStep (pool : Pool) {step : Step}
    (h : ∀ s, step.snapshot = some s → s.Coherent) {s : Snapshot}
    (hs : (storeStep pool step).2.snapshot = some s) : s.Coherent := by
  obtain ⟨-, hkept⟩ | ⟨old, hold, -, hstep⟩ := storeStep_cases pool step
  · rw [hkept] at hs
    exact h s hs
  · rw [hstep] at hs
    obtain rfl := Option.some.inj hs
    exact coherent_store pool (h old hold)

theorem coherent_storeSteps (pool : Pool) {steps : List Step}
    (h : ∀ step ∈ steps, ∀ s, step.snapshot = some s → s.Coherent) :
    ∀ step ∈ (storeSteps pool steps).2, ∀ s, step.snapshot = some s → s.Coherent := by
  induction steps generalizing pool with
  | nil => simp [storeSteps]
  | cons step rest ih =>
    simp only [storeSteps, List.forall_mem_cons] at h ⊢
    exact ⟨fun s hs => coherent_storeStep pool h.1 hs, ih _ h.2⟩

/-- What is put back fits the hash that the reference bears. -/
theorem coherent_restoreSnapshot (pool : Pool) {s : Snapshot} (h : s.Coherent) :
    (restoreSnapshot pool s).Coherent := by
  unfold restoreSnapshot
  split
  · next content hfound =>
    rw [content?_eq] at hfound
    split at hfound
    · cases hfound
    · have hfits := (Option.filter_eq_some_iff.mp hfound).2
      simp only [ContentHash.fits, Bool.and_eq_true, beq_iff_eq] at hfits
      exact Or.inr hfits.2
  · exact h

end Pool

namespace Script.Coherent

variable {script : Script} (h : script.Coherent)
include h

theorem optimize : script.optimize.Coherent := Pool.coherent_storeSteps _ h

theorem restore : script.restore.Coherent := by
  intro after hafter s hs
  rw [steps_restore, List.mem_map] at hafter
  obtain ⟨before, hbefore, rfl⟩ := hafter
  obtain ⟨old, hold, rfl⟩ := Option.map_eq_some_iff.mp hs
  exact Pool.coherent_restoreSnapshot _ (h before hbefore old hold)

end Script.Coherent

/-- A step that restoring gives a content was a reference to it by its hash. -/
theorem Script.hash_of_inline_restore {script : Script} {i : Nat} {before after : Step}
    (hbefore : script.steps[i]? = some before) (hafter : script.restore.steps[i]? = some after)
    (hnone : before.inline = none) {content : String} (hcontent : after.inline = some content) :
    ∃ s, before.snapshot = some s ∧ s.hash = .of content := by
  rw [steps_restore, List.getElem?_map, hbefore, Option.map_some] at hafter
  obtain rfl := Option.some.inj hafter
  obtain ⟨-, s, hs, hhash, -⟩ := (Pool.inline_restoreStep hnone).mp hcontent
  exact ⟨s, hs, hhash⟩

end Replay
