import Mathlib.Data.List.Nodup
import Replay.Proofs.Validation.Validity
set_option autoImplicit false

/-!
The findings on a snapshot, its checks, its score and its validity say the same. The codes found are
those of the failing checks, in their order (`Examination.codes_report`), and each code belongs to
one check (`IssueCode.check_of_failureCode`), so that no code occurs twice. Nothing is found exactly
if no check fails, and the weight of what fails is what the score lacks (`score_eq_hundred`).
-/

namespace Replay

/-- The code that tells that a snapshot fails a check. A size out of its limits is not told of an
empty content, which fails other checks. -/
def failureCode (limits : Limits) (s : Snapshot) : Check → Option IssueCode
  | .content => some .missingXmlContent
  | .format => some .invalidXmlFormat
  | .device => some .missingDeviceInfo
  | .page => some .missingPageInfo
  | .timestamp => some .missingTimestamp
  | .size =>
    if s.content = "" then none
    else if s.size < limits.minSizeBytes then some .xmlTooSmall else some .xmlTooLarge
  | .structured => some .invalidXmlStructure

namespace IssueCode

/-- The check that a code is about; the codes of steps and scripts are about none. -/
def check : IssueCode → Option Check
  | missingXmlContent => some .content
  | invalidXmlFormat => some .format
  | missingDeviceInfo => some .device
  | missingPageInfo => some .page
  | missingTimestamp => some .timestamp
  | xmlTooSmall | xmlTooLarge => some .size
  | invalidXmlStructure => some .structured
  | invalidScriptFormat | missingXmlSnapshot | missingLocator => none

theorem check_of_failureCode {limits : Limits} {s : Snapshot} {c : Check} {code : IssueCode}
    (h : failureCode limits s c = some code) : code.check = some c := by
  cases c
  case size =>
    simp only [failureCode] at h
    split at h
    · cases h
    · split at h <;> cases h <;> rfl
  all_goals
    obtain rfl := Option.some.inj h
    rfl

end IssueCode

namespace Examination

variable (e : Examination)

theorem passed_report (c : Check) : e.report.passed c = e.passes c := by
  cases c <;> rfl

theorem failed_report : e.report.failed = Check.all.filter (!e.passes ·) :=
  List.filter_congr fun c _ => by rw [passed_report]

theorem code_of_finding (c : Check) : (e.finding c).map (·.code) =
    if e.passes c then none else failureCode e.limits e.snapshot c := by
  by_cases hc : c = .size
  · subst hc
    have hempty : e.snapshot.content = "" ↔ e.size = 0 := by simp [size, Snapshot.size]
    have hsize : e.snapshot.size = e.size := rfl
    simp only [finding, if_true, sizeFinding, failureCode, hempty, hsize, passes,
      Bool.and_eq_true, decide_eq_true_eq]
    split
    · next hsmall =>
      rw [if_neg (by omega), if_neg (by omega), if_pos hsmall.2]
      rfl
    · split
      · rw [if_neg (by omega), if_neg (by omega), if_neg (by omega)]
        rfl
      · split
        · rfl
        · rw [if_pos (by omega)]
          rfl
  · rw [finding, if_neg hc]
    cases hpass : e.passes c with
    | true => rfl
    | false => cases c <;> first | rfl | exact absurd rfl hc

theorem codes_report : e.report.issues.map (·.code) =
    e.report.failed.filterMap (failureCode e.limits e.snapshot) := by
  rw [failed_report, report, List.map_filterMap, List.filterMap_filter]
  refine List.filterMap_congr fun c _ => ?_
  rw [code_of_finding]
  cases e.passes c <;> rfl

theorem nodup_codes : (e.report.issues.map (·.code)).Nodup := by
  rw [codes_report]
  refine List.Nodup.filterMap (fun c c' code hc hc' => ?_) (List.Nodup.filter _ (by decide))
  have hsame := (IssueCode.check_of_failureCode hc).symm.trans (IssueCode.check_of_failureCode hc')
  exact Option.some.inj hsame

theorem mem_failed {c : Check} : c ∈ e.report.failed ↔ e.passes c = false := by
  rw [failed_report, List.mem_filter, Bool.not_eq_true']
  exact and_iff_right (by cases c <;> decide)

theorem failed_eq_nil : e.report.failed = [] ↔ ∀ c, e.report.passed c := by
  simp only [List.eq_nil_iff_forall_not_mem, mem_failed, passed_report, Bool.not_eq_false]

/-- Nothing is found exactly if no check fails: an empty content, whose size is not told of, fails
the check of the content too. -/
theorem issues_eq_nil : e.report.issues = [] ↔ ∀ c, e.report.passed c := by
  rw [← List.map_eq_nil_iff, codes_report, ← failed_eq_nil]
  refine ⟨fun h => List.eq_nil_iff_forall_not_mem.mpr fun c hc => ?_, fun h => by rw [h]; rfl⟩
  have hnone := List.filterMap_eq_nil_iff.mp h
  have hcontent : e.passes .content := by
    by_contra hfails
    cases hnone .content (e.mem_failed.mpr (Bool.eq_false_iff.mpr hfails))
  have hsize := e.size_pos_of_content hcontent
  have hcode := hnone c hc
  cases c
  case size =>
    have hne : e.snapshot.content ≠ "" := fun hempty => by
      simp [size, Snapshot.size, hempty] at hsize
    simp only [failureCode, if_neg hne] at hcode
    split at hcode <;> cases hcode
  all_goals cases hcode

/-- The score lacks the weight of what fails, and every check has some. -/
theorem score_eq_hundred : e.report.score = 100 ↔ ∀ c, e.report.passed c := by
  have hsum := total_filter_add e.passes Check.weight Check.all
  have hweight : total (Check.all.map Check.weight) = 110 := rfl
  have hscore : e.report.score =
      total ((Check.all.filter e.passes).map Check.weight) * 100 / 110 := rfl
  have hnone (l : List Check) : total (l.map Check.weight) = 0 ↔ l = [] := by
    cases l with
    | nil => exact iff_of_true rfl rfl
    | cons c l =>
      have hpos : 0 < c.weight := by cases c <;> decide
      simp only [List.map_cons, total, reduceCtorEq, iff_false]
      omega
  rw [← failed_eq_nil, failed_report, ← hnone, hscore]
  omega

end Examination

theorem isSome_validateSnapshot? (limits : Limits) (now : Instant) (s : Snapshot) :
    (validateSnapshot? limits now s).isSome ↔
      (s.capturedAt.isSome → Instant.inCalendar (now.second + limits.futureSkew)) := by
  rw [validateSnapshot?, Option.isSome_map, Examination.timestampPasses?, Examination.of]
  cases s.capturedAt with
  | none => simp
  | some t => simp [Instant.isSome_addSeconds?]

theorem eq_of_validateSnapshot? {limits : Limits} {now : Instant} {s : Snapshot}
    {r : SnapshotReport} (h : validateSnapshot? limits now s = some r) :
    r = validateSnapshot limits now s := by
  obtain ⟨-, -, rfl⟩ := Option.map_eq_some_iff.mp h
  rfl

/-- Findings, checks, score and validity of a snapshot agree, for every limits and at every clock at
which there is a report: only the time of a capture needs a clock from which the tolerated difference
does not lead out of the calendar. Nothing is found exactly if every check passes, exactly if the
score is full; no code occurs twice; the codes are those of the failing checks; and snapshots with one
content are both valid or both not, at any clocks, under limits that agree on the length of a content
and on its size. -/
theorem validateSnapshot?_consistent (limits : Limits) (now : Instant) (s : Snapshot) :
    ((validateSnapshot? limits now s).isSome ↔
      (s.capturedAt.isSome → Instant.inCalendar (now.second + limits.futureSkew))) ∧
    ∀ r, validateSnapshot? limits now s = some r →
      (r.issues = [] ↔ ∀ c, r.passed c) ∧ (r.score = 100 ↔ ∀ c, r.passed c) ∧
      (r.issues.map (·.code)).Nodup ∧
      r.issues.map (·.code) = r.failed.filterMap (failureCode limits s) ∧
      ∀ (limits' : Limits) (now' : Instant) (s' : Snapshot) (r' : SnapshotReport),
        validateSnapshot? limits' now' s' = some r' → s.content = s'.content →
        limits.minContentLength = limits'.minContentLength →
        limits.minSizeBytes = limits'.minSizeBytes → limits.maxSizeBytes = limits'.maxSizeBytes →
        r'.isValid = r.isValid := by
  refine ⟨isSome_validateSnapshot? limits now s, fun r hr => ?_⟩
  let e := Examination.of limits now s
  obtain rfl : r = e.report := eq_of_validateSnapshot? hr
  refine ⟨e.issues_eq_nil, e.score_eq_hundred, e.nodup_codes, e.codes_report, ?_⟩
  intro limits' now' s' r' hr' hcontent hlength hmin hmax
  rw [eq_of_validateSnapshot? hr']
  exact (isValid_congr hcontent hlength hmin hmax now now').symm

def barePage : Snapshot := { content := "<hierarchy><node bounds=\"[0,0][9,9]\"/></hierarchy>" }

def knownPage : Snapshot :=
  { barePage with
    capturedAt := some ⟨0, 0⟩
    device := { id := "phone", name := "Phone" }
    page := { title := "Cart" } }

def smallLimits : Limits := { minSizeBytes := 16 }

def strictLimits : Limits := { minSizeBytes := 16, maxFutureSkewSecs := 0, minorPassRatio := 2 }

def lastInstant : Instant := ⟨Instant.latest, 999999999⟩

theorem validateSnapshot?_consistent_barePage :
    knownPage.content = barePage.content ∧
    ∃ r r', validateSnapshot? smallLimits ⟨0, 0⟩ knownPage = some r ∧ r.issues = [] ∧
      r.score = 100 ∧ validateSnapshot? strictLimits lastInstant barePage = some r' ∧
      r'.issues.map (·.code) = [.missingDeviceInfo, .missingPageInfo, .missingTimestamp] ∧
      r'.isValid = r.isValid := by
  obtain ⟨hsome, hknown⟩ := validateSnapshot?_consistent smallLimits ⟨0, 0⟩ knownPage
  obtain ⟨hsome', hbare⟩ := validateSnapshot?_consistent strictLimits lastInstant barePage
  obtain ⟨r, hr⟩ := Option.isSome_iff_exists.mp (hsome.mpr fun _ => by decide)
  obtain ⟨r', hr'⟩ := Option.isSome_iff_exists.mp (hsome'.mpr nofun)
  obtain ⟨hissues, hscore, -, -, hvalid⟩ := hknown r hr
  obtain ⟨-, -, -, hcodes, -⟩ := hbare r' hr'
  have hpassed : ∀ c, r.passed c := by
    obtain rfl := eq_of_validateSnapshot? hr
    intro c
    cases c <;> decide +kernel
  have hfailed : r'.failed.filterMap (failureCode strictLimits barePage) =
      [.missingDeviceInfo, .missingPageInfo, .missingTimestamp] := by
    obtain rfl := eq_of_validateSnapshot? hr'
    decide +kernel
  exact ⟨rfl, r, r', hr, hissues.mpr hpassed, hscore.mpr hpassed, hr', hcodes.trans hfailed,
    hvalid strictLimits lastInstant barePage r' hr' rfl rfl rfl rfl⟩

/-- At the last instant of the calendar there is no report on a page of which all is known. -/
theorem not_validated_lastInstant : validateSnapshot? {} lastInstant knownPage = none := by
  decide

end Replay
