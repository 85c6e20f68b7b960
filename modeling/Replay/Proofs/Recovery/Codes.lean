import Replay.Proofs.Recovery.Pass
import Replay.Proofs.Validation.Validity
set_option autoImplicit false

/-!
A turn never adds a finding that blocks the step (`hasIssue_recoverStep`): an accepted snapshot is
valid on its own, and then the step can lack no more than its locator, or it is no worse than what
the step had, and then every code was there before. The strategy and the clock do not matter.
-/

namespace Replay.Recovery.Engine

theorem noWorse_iff (before after : StepReport) : noWorse before after ↔
    (∀ i ∈ after.issues, before.hasIssue i.code) ∧
      (severityOf after).rank ≤ (severityOf before).rank := by
  simp [noWorse]

theorem hasIssue_of_noWorse {before after : StepReport} (h : noWorse before after)
    {code : IssueCode} (hcode : after.hasIssue code) : before.hasIssue code := by
  obtain ⟨i, hi, hic⟩ := List.any_eq_true.mp hcode
  obtain rfl : i.code = code := by simpa using hic
  exact ((noWorse_iff before after).mp h).1 i hi

theorem Accepted.hasIssue {e : Engine} {c : Context} {strategy : Strategy} {s : Snapshot}
    (h : e.Accepted c strategy s) {code : IssueCode} (hcode : code.category ≠ .metadata)
    {now now' : Instant}
    (hissue :
      (validateStep e.limits now c.index { c.step with snapshot := some s }).hasIssue code) :
    (validateStep e.limits now' c.index c.step).hasIssue code := by
  -- A step with a valid snapshot can only lack a locator, and the locator is the old one.
  obtain hvalid | hnoWorse := h.alone_or_noWorse
  · obtain ⟨rfl, hlocator⟩ := hasIssue_of_valid_snapshot e.limits _ now c.index _ rfl hvalid hcode
      hissue
    exact hasIssue_missingLocator e.limits now' c.index c.step hlocator
  · rw [hasIssue_clock _ now (e.clock (.proposal c.index strategy.id)) _ _ hcode] at hissue
    rw [hasIssue_clock _ now' (e.clock (.turn c.index)) _ _ hcode]
    exact hasIssue_of_noWorse hnoWorse hissue

theorem hasIssue_recoverStep (e : Engine) (c : Context) {code : IssueCode}
    (hcode : code.category ≠ .metadata) {now now' : Instant}
    (hissue : (validateStep e.limits now c.index (e.recoverStep c).step).hasIssue code) :
    (validateStep e.limits now' c.index c.step).hasIssue code := by
  obtain hsame | ⟨strategy, s, haccepted, hstep⟩ := e.recoverStep_cases c
  · rw [hsame, hasIssue_clock _ now now' _ _ hcode] at hissue
    exact hissue
  · rw [hstep] at hissue
    exact haccepted.hasIssue hcode hissue

theorem isValid_recoverStep (e : Engine) (c : Context) {now now' : Instant}
    (h : (validateStep e.limits now c.index c.step).isValid) :
    (validateStep e.limits now' c.index (e.recoverStep c).step).isValid := by
  rw [isValid_iff_hasIssue] at h ⊢
  intro code hissue
  by_cases hcode : code.category = .metadata
  · exact hcode
  · exact h code (e.hasIssue_recoverStep c hcode hissue)

end Replay.Recovery.Engine
