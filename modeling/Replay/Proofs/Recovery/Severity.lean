import Replay.Proofs.Recovery.Codes
import Replay.Proofs.Recovery.Plan
import Replay.Proofs.Recovery.Proposals
set_option autoImplicit false

/-!
Severity along the standard chain. A snapshot that is accepted since it is valid alone is minor at
worst, which is no rise unless the step had a valid snapshot before. The standard chain touches such
a step for one reason only, to adapt it to another device, and then no check is lost
(`Chain.Careful`, `severity_recoverStep`).
-/

namespace Replay.Recovery

namespace Chain

/-- A chain that touches a step with a valid snapshot to adapt it only. -/
structure Careful (c : Chain) : Prop where
  linked_issue : ∀ code s, (Trigger.issue code, s) ∈ c.links → code.category = .content
  linked_device : ∀ s, (Trigger.failure .deviceIncompatible, s) ∈ c.links → s = .deviceAdaptation

theorem careful_standard (sources : List Source) (allowRegeneration : Bool) :
    (standard sources allowRegeneration).Careful := by
  constructor
  · intro code s h
    have hcode : code = .invalidXmlFormat ∨ code = .xmlTooSmall ∨ code = .invalidXmlStructure := by
      cases allowRegeneration <;> simp [standard] at h <;> grind
    rcases hcode with rfl | rfl | rfl <;> rfl
  · intro s h
    cases allowRegeneration <;> simpa [standard] using h

end Chain

namespace Engine

theorem isValid_iff_rank (r : SnapshotReport) : r.isValid ↔ r.severity.rank ≤ 1 := by
  rw [SnapshotReport.isValid]
  cases r.severity <;> decide

theorem rank_le_three (s : Severity) : s.rank ≤ 3 := by
  cases s <;> decide

theorem severity_adapted (limits : Limits) (now : Instant) {old s : Snapshot}
    (hdevice : s.device.hasIdentity) (hpage : s.page = old.page)
    (htime : s.capturedAt = old.capturedAt) (hvalid : (validateSnapshot limits now s).isValid) :
    (validateSnapshot limits now s).severity.rank ≤
      (validateSnapshot limits now old).severity.rank := by
  refine Examination.severity_mono rfl fun c hc => ?_
  rw [validateSnapshot, Examination.isValid_report] at hvalid
  cases c with
  | content | format | size | structured => exact hvalid _ rfl
  | device => exact hdevice
  | page => simpa [Examination.passes, Examination.of, hpage] using hc
  | timestamp =>
    have hsame : (Examination.of limits now s).timestampPasses? =
        (Examination.of limits now old).timestampPasses? := by
      simp only [Examination.timestampPasses?, Examination.of, htime]
    rwa [Examination.passes, hsame]

theorem classify_of_valid {e : Engine} {step : Step} {report : StepReport} {failure : FailureKind}
    (h : e.classify step report = some failure) (hvalid : report.isValid) :
    failure = .deviceIncompatible := by
  rw [classify, if_pos hvalid] at h
  split at h
  · split at h
    · cases h
    · exact (Option.some.inj h).symm
  · cases h

theorem classify_of_invalid {e : Engine} {step : Step} {report : StepReport} {failure : FailureKind}
    (h : e.classify step report = some failure) (hinvalid : report.isValid = false)
    {s : Snapshot} (hs : step.snapshot = some s) (hcontent : s.hasContent) :
    failure = .corrupted := by
  rw [classify, hinvalid] at h
  simpa [hs, hcontent] using h.symm

theorem hasContent_of_valid {limits : Limits} {now : Instant} {s : Snapshot}
    (h : (validateSnapshot limits now s).isValid) : s.hasContent := by
  have hpass := (Examination.isValid_report _).mp h .content rfl
  have hpos : 0 < s.content.utf8ByteSize := Examination.size_pos_of_content _ hpass
  rw [Snapshot.hasContent, Bool.not_eq_true', ← Bool.not_eq_true, String.isEmpty_iff]
  rintro hempty
  simp [hempty] at hpos

theorem planned_of_valid {e : Engine} (hcareful : e.chain.Careful) {script : Script} {c : Context}
    (hc : e.Shows script c) {old : Snapshot} (hold : c.step.snapshot = some old) {now : Instant}
    (hvalid : (validateSnapshot e.limits now old).isValid) {strategy : Strategy}
    (hplan : strategy ∈ e.chain.plan c.failure c.issues) : strategy = .deviceAdaptation := by
  obtain ⟨t, ht, hlink⟩ := Chain.mem_plan hplan
  -- If the step is invalid nevertheless, its locator is missing, and nothing is linked to that.
  cases hstep : (e.surveyed c).isValid with
  | true =>
    rw [classify_of_valid hc.failure_eq hstep] at ht
    obtain rfl := List.mem_singleton.mp ht
    exact hcareful.linked_device strategy hlink
  | false =>
    rw [classify_of_invalid hc.failure_eq hstep hold (hasContent_of_valid hvalid), hc.issues_eq,
      hstep] at ht
    obtain ⟨i, hi, rfl⟩ := List.mem_map.mp ht
    have hcategory := hcareful.linked_issue i.code strategy hlink
    have hissue : (e.surveyed c).hasIssue i.code := List.any_eq_true.mpr ⟨i, hi, by simp⟩
    have hcode := (hasIssue_of_valid_snapshot e.limits now _ c.index c.step hold hvalid
      (by simp [hcategory]) hissue).1
    rw [hcode] at hcategory
    cases hcategory

/-- With one reading of the clock, a turn under a careful chain does not raise the severity. -/
theorem severity_recoverStep {e : Engine} (hcareful : e.chain.Careful) {now : Instant}
    (hclock : ∀ m, e.clock m = now) (htarget : ∀ d, e.target = some d → d.hasIdentity)
    {script : Script} {c : Context} (hc : e.Shows script c) :
    (severityOf (validateStep e.limits now c.index (e.recoverStep c).step)).rank ≤
      (severityOf (validateStep e.limits now c.index c.step)).rank := by
  obtain hsame | ⟨strategy, s, haccepted, hstep⟩ := e.recoverStep_cases c
  · exact Nat.le_of_eq (by rw [hsame])
  -- What is valid alone is minor at worst, so that only a valid snapshot could have been better.
  obtain halone | hnoWorse := haccepted.alone_or_noWorse
  · rw [hclock] at halone
    rw [hstep]
    cases hold : c.step.snapshot with
    | none =>
      simp only [severityOf, validateStep, hold, Option.map_none, Option.getD_none]
      exact rank_le_three _
    | some old =>
      have hrank := (isValid_iff_rank _).mp halone
      simp only [severityOf, validateStep, hold, Option.map_some, Option.getD_some]
      by_cases hvalid : (validateSnapshot e.limits now old).isValid
      · have hplan := planned_of_valid hcareful hc hold hvalid haccepted.planned
        obtain ⟨target, old', ht, hold', rfl⟩ :=
          Strategy.proposed_deviceAdaptation (hplan ▸ haccepted.proposed)
        obtain rfl : old' = old := Option.some.inj (hold'.symm.trans hold)
        have hdevice : target.hasIdentity := htarget target (hc.target_eq ▸ ht)
        exact severity_adapted e.limits now hdevice rfl rfl halone
      · rw [isValid_iff_rank] at hvalid
        omega
  · rw [hclock, hclock] at hnoWorse
    rw [hstep]
    exact ((noWorse_iff _ _).mp hnoWorse).2

end Engine

end Replay.Recovery
