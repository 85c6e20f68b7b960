import Replay.Proofs.Validation.Share
import Replay.Validation.Script
set_option autoImplicit false

/-!
What decides whether a step is valid. Findings are of two kinds: those on metadata, which never make
a step invalid, and the rest, which block it. A step is valid exactly if nothing blocks it
(`isValid_iff_blocking`), and what blocks a step does not depend on the clock
(`blocking_validateStep_clock`).
-/

namespace Replay

def blocking (issues : List Issue) : List Issue := issues.filter (·.code.category != .metadata)

@[simp] theorem blocking_append (is js : List Issue) :
    blocking (is ++ js) = blocking is ++ blocking js := List.filter_append ..

/-- A snapshot that fails the check is not valid. -/
def Check.essential (c : Check) : Bool := c.mustHave || c.isMajor

namespace Examination

theorem sizeFinding_eq_none (e : Examination) (h : 0 < e.size) :
    e.sizeFinding = none ↔ e.passes .size := by
  simp only [sizeFinding, passes, Bool.and_eq_true, decide_eq_true_eq]
  split
  · simp
    omega
  · split
    · simp
      omega
    · simp
      omega

theorem finding_eq_none (e : Examination) {c : Check} (hc : c ≠ .size) :
    e.finding c = none ↔ e.passes c := by
  rw [finding, if_neg hc]
  cases c <;> simp_all [complaint]

theorem size_pos_of_content (e : Examination) (h : e.passes .content) : 0 < e.size := by
  rw [Nat.pos_iff_ne_zero]
  intro hzero
  have hempty : e.snapshot.content = "" := by simpa [size, Snapshot.size] using hzero
  simp [passes, contentPasses, hempty] at h

theorem category_of_sizeFinding {e : Examination} {i : Issue} (h : e.sizeFinding = some i) :
    i.code.category = .content := by
  unfold sizeFinding at h
  split at h
  · obtain rfl := Option.some.inj h
    rfl
  · split at h
    · obtain rfl := Option.some.inj h
      rfl
    · cases h

theorem category_of_finding {e : Examination} {c : Check} {i : Issue} (h : e.finding c = some i) :
    (i.code.category != .metadata) = c.essential := by
  by_cases hc : c = .size
  · subst hc
    rw [category_of_sizeFinding h]
    rfl
  · rw [finding, if_neg hc] at h
    split at h
    · cases h
    · cases c <;> simp only [complaint, Option.some.injEq] at h
      case size => exact absurd rfl hc
      all_goals
        subst h
        rfl

theorem blocking_report (e : Examination) :
    blocking e.report.issues = (Check.all.filter Check.essential).filterMap e.finding := by
  rw [blocking, report, List.filter_filterMap, List.filterMap_filter]
  congr 1
  funext c
  cases h : e.finding c with
  | none => simp
  | some i =>
    rw [Option.filter_some, category_of_finding h]

theorem none_fails (e : Examination) (p : Check → Bool) :
    (Check.all.any fun c => p c && !e.passes c) = false ↔ ∀ c, p c → e.passes c := by
  rw [List.any_eq_false]
  constructor
  · intro h c hc
    simpa [hc] using h c (by cases c <;> decide)
  · intro h c _
    simp +contextual [h c]

theorem isValid_report (e : Examination) :
    e.report.isValid ↔ ∀ c, c.essential → e.passes c := by
  have hbad {p : Check → Bool} (hp : ∀ c, p c → c.essential)
      (hfails : (Check.all.any fun c => p c && !e.passes c) = true) :
      ¬∀ c, c.essential → e.passes c := by
    intro h
    rw [(e.none_fails p).mpr fun c hc => h c (hp c hc)] at hfails
    cases hfails
  simp only [SnapshotReport.isValid, report, severity]
  cases hmust : Check.all.any fun c => c.mustHave && !e.passes c with
  | true =>
    have hinvalid := hbad (fun c hc => by rw [Check.essential, hc, Bool.true_or]) hmust
    simp only [↓reduceIte, iff_false_intro hinvalid, iff_false]
    decide
  | false =>
    cases hmajor : Check.all.any fun c => c.isMajor && !e.passes c with
    | true =>
      have hinvalid := hbad (fun c hc => by rw [Check.essential, hc, Bool.or_true]) hmajor
      simp only [↓reduceIte, Bool.false_eq_true, iff_false_intro hinvalid, iff_false]
      decide
    | false =>
      rw [none_fails] at hmust hmajor
      have hall : ∀ c, c.essential → e.passes c := by
        intro c hc
        exact (Bool.or_eq_true_iff.mp hc).elim (hmust c) (hmajor c)
      simp only [↓reduceIte, Bool.false_eq_true, iff_true_intro hall, iff_true]
      split <;> rfl

/-- A snapshot is valid exactly if no finding on it blocks. -/
theorem isValid_iff_blocking (e : Examination) :
    e.report.isValid ↔ blocking e.report.issues = [] := by
  rw [isValid_report, blocking_report, List.filterMap_eq_nil_iff]
  constructor
  · intro h c hc
    have hess : c.essential := (List.mem_filter.mp hc).2
    by_cases hsize : c = .size
    · subst hsize
      exact (e.sizeFinding_eq_none (e.size_pos_of_content (h .content rfl))).mpr (h .size rfl)
    · exact (e.finding_eq_none hsize).mpr (h c hess)
  · intro h c hc
    have hnone (c : Check) (hc : c.essential) : e.finding c = none :=
      h c (List.mem_filter.mpr ⟨by cases c <;> decide, hc⟩)
    by_cases hsize : c = .size
    · subst hsize
      have hcontent := (e.finding_eq_none (by decide)).mp (hnone .content rfl)
      exact (e.sizeFinding_eq_none (e.size_pos_of_content hcontent)).mp (hnone .size rfl)
    · exact (e.finding_eq_none hsize).mp (hnone c hc)

/-- If every check that passes still passes, the severity does not rise. -/
theorem severity_mono {e e' : Examination} (hlimits : e'.limits = e.limits)
    (h : ∀ c, e.passes c → e'.passes c) : e'.severity.rank ≤ e.severity.rank := by
  have hfails (p : Check → Bool) (hnone : (Check.all.any fun c => p c && !e.passes c) = false) :
      (Check.all.any fun c => p c && !e'.passes c) = false := by
    rw [none_fails] at hnone ⊢
    intro c hc
    exact h c (hnone c hc)
  have hcount : Check.all.countP e.passes ≤ Check.all.countP e'.passes :=
    List.countP_mono_left fun c _ => h c
  simp only [severity, hlimits]
  cases hmust : Check.all.any fun c => c.mustHave && !e.passes c with
  | true =>
    simp only [↓reduceIte]
    split
    · decide
    · split
      · decide
      · split <;> decide
  | false =>
    rw [hfails _ hmust]
    cases hmajor : Check.all.any fun c => c.isMajor && !e.passes c with
    | true =>
      simp only [↓reduceIte, Bool.false_eq_true]
      split
      · decide
      · split <;> decide
    | false =>
      rw [hfails _ hmajor]
      simp only [↓reduceIte, Bool.false_eq_true]
      split
      · next hlt =>
        have hpos : 0 < Check.all.countP e.passes :=
          List.countP_pos_iff.mpr ⟨.content, by decide, (e.none_fails _).mp hmust .content rfl⟩
        have hbelow := Share.toFloat_lt_of_le hpos hcount List.countP_le_length hlt
        exact Nat.le_of_eq (by rw [if_pos hbelow])
      · exact Nat.zero_le _

end Examination

/-- Whether a snapshot is valid is a matter of its content and of three limits: device, page and time
are looked at by checks that are not essential. -/
theorem isValid_congr {limits limits' : Limits} {s s' : Snapshot} (hcontent : s.content = s'.content)
    (hlength : limits.minContentLength = limits'.minContentLength)
    (hmin : limits.minSizeBytes = limits'.minSizeBytes)
    (hmax : limits.maxSizeBytes = limits'.maxSizeBytes) (now now' : Instant) :
    (validateSnapshot limits now s).isValid = (validateSnapshot limits' now' s').isValid := by
  obtain ⟨_, _, _, _, _⟩ := limits
  obtain ⟨_, _, _, _, _⟩ := limits'
  obtain ⟨content, _⟩ := s
  obtain ⟨content', _⟩ := s'
  obtain rfl : content = content' := hcontent
  obtain rfl := hlength
  obtain rfl := hmin
  obtain rfl := hmax
  rw [Bool.eq_iff_iff, validateSnapshot, validateSnapshot, Examination.isValid_report,
    Examination.isValid_report]
  constructor <;>
  · intro h c hc
    have hpass := h c hc
    cases c <;> first | exact hpass | cases hc

theorem isValid_of_content_eq (limits : Limits) (now now' : Instant) {s s' : Snapshot}
    (h : s.content = s'.content) :
    (validateSnapshot limits now s).isValid = (validateSnapshot limits now' s').isValid :=
  isValid_congr h rfl rfl rfl now now'

theorem isValid_validateSnapshot (limits : Limits) (now now' : Instant) (s : Snapshot) :
    (validateSnapshot limits now s).isValid = (validateSnapshot limits now' s).isValid :=
  isValid_of_content_eq limits now now' rfl

theorem blocking_validateSnapshot (limits : Limits) (now now' : Instant) (s : Snapshot) :
    blocking (validateSnapshot limits now s).issues =
      blocking (validateSnapshot limits now' s).issues := by
  rw [validateSnapshot, validateSnapshot, Examination.blocking_report, Examination.blocking_report]
  rfl

section Steps

variable (limits : Limits) (now now' : Instant) (index : Nat) (step : Step)

theorem blocking_validateStep :
    blocking (validateStep limits now index step).issues =
      (match step.snapshot with
        | none => [missingSnapshot index]
        | some s => blocking (validateSnapshot limits now s).issues) ++
      if step.locator.isEmpty then [missingLocator index] else [] := by
  rw [validateStep, blocking_append]
  congr 1
  · cases step.snapshot <;> rfl
  · cases step.locator.isEmpty <;> rfl

theorem blocking_validateStep_clock :
    blocking (validateStep limits now index step).issues =
      blocking (validateStep limits now' index step).issues := by
  rw [blocking_validateStep, blocking_validateStep]
  cases step.snapshot with
  | none => rfl
  | some s => simp only [blocking_validateSnapshot limits now now' s]

theorem isValid_iff_blocking :
    (validateStep limits now index step).isValid ↔
      blocking (validateStep limits now index step).issues = [] := by
  rw [blocking_validateStep]
  cases hs : step.snapshot with
  | none => simp [validateStep, hs]
  | some s =>
    have hsnapshot := (Examination.of limits now s).isValid_iff_blocking
    cases hl : step.locator.isEmpty with
    | true => simp [validateStep, hs, hl]
    | false => simpa [validateStep, hs, hl, validateSnapshot] using hsnapshot

theorem hasIssue_iff_blocking (r : StepReport) {code : IssueCode}
    (hcode : code.category ≠ .metadata) :
    r.hasIssue code ↔ code ∈ (blocking r.issues).map (·.code) := by
  simp only [StepReport.hasIssue, blocking, List.any_eq_true, List.mem_map, List.mem_filter]
  constructor
  · rintro ⟨i, hi, hic⟩
    obtain rfl : i.code = code := by simpa using hic
    exact ⟨i, ⟨hi, by simpa using hcode⟩, rfl⟩
  · rintro ⟨i, ⟨hi, -⟩, rfl⟩
    exact ⟨i, hi, by simp⟩

theorem isValid_iff_hasIssue :
    (validateStep limits now index step).isValid ↔ ∀ code : IssueCode,
      (validateStep limits now index step).hasIssue code → code.category = .metadata := by
  rw [isValid_iff_blocking]
  constructor
  · intro h code hissue
    by_cases hcode : code.category = .metadata
    · exact hcode
    · rw [hasIssue_iff_blocking _ hcode, h] at hissue
      cases hissue
  · intro h
    refine List.eq_nil_iff_forall_not_mem.mpr fun i hi => ?_
    have hcode : i.code.category ≠ .metadata := by simpa using (List.mem_filter.mp hi).2
    exact hcode (h i.code ((hasIssue_iff_blocking _ hcode).mpr (List.mem_map_of_mem hi)))

theorem exists_of_invalid (h : (validateStep limits now index step).isValid = false) :
    ∃ code : IssueCode, code.category ≠ .metadata ∧
      (validateStep limits now index step).hasIssue code := by
  refine Classical.byContradiction fun hnone => ?_
  have hvalid := (isValid_iff_hasIssue limits now index step).mpr fun code hissue =>
    Classical.byContradiction fun hcode => hnone ⟨code, hcode, hissue⟩
  rw [h] at hvalid
  cases hvalid

theorem hasIssue_clock {code : IssueCode} (hcode : code.category ≠ .metadata) :
    (validateStep limits now index step).hasIssue code =
      (validateStep limits now' index step).hasIssue code := by
  rw [Bool.eq_iff_iff, hasIssue_iff_blocking _ hcode, hasIssue_iff_blocking _ hcode,
    blocking_validateStep_clock limits now now']

theorem isValid_validateStep_clock :
    (validateStep limits now index step).isValid =
      (validateStep limits now' index step).isValid := by
  rw [Bool.eq_iff_iff, isValid_iff_blocking, isValid_iff_blocking,
    blocking_validateStep_clock limits now now']

theorem hasIssue_of_valid_snapshot {s : Snapshot} (hs : step.snapshot = some s)
    (hvalid : (validateSnapshot limits now s).isValid) {code : IssueCode}
    (hcode : code.category ≠ .metadata)
    (hissue : (validateStep limits now' index step).hasIssue code) :
    code = .missingLocator ∧ step.locator.isEmpty := by
  rw [isValid_validateSnapshot limits now now'] at hvalid
  rw [hasIssue_iff_blocking _ hcode, blocking_validateStep, hs] at hissue
  simp only [(Examination.isValid_iff_blocking _).mp hvalid, validateSnapshot] at hissue
  cases hl : step.locator.isEmpty with
  | true => exact ⟨by simpa [hl, missingLocator] using hissue, rfl⟩
  | false => simp [hl] at hissue

theorem hasIssue_missingLocator (h : step.locator.isEmpty) :
    (validateStep limits now index step).hasIssue .missingLocator := by
  simp [validateStep, StepReport.hasIssue, h, missingLocator]

/-- One issue at most for each check, and one for the locator. -/
theorem length_issues_le : (validateStep limits now index step).issues.length ≤ 8 := by
  have hlocator (located : Bool) : (if located then [] else [missingLocator index]).length ≤ 1 := by
    cases located <;> simp
  rw [validateStep, List.length_append]
  refine Nat.add_le_add ?_ (hlocator _)
  cases step.snapshot with
  | none => exact (by decide : 1 ≤ 7)
  | some s => exact List.length_filterMap_le _ Check.all

end Steps

section Scripts

variable (limits : Limits) (now : Instant) (script : Script)

theorem length_validateScript :
    (validateScript limits now script).steps.length = script.restore.steps.length := by
  simp [validateScript, summarize, validateSteps]

theorem getElem?_validateScript (i : Nat) :
    (validateScript limits now script).steps[i]? =
      script.restore.steps[i]?.map (validateStep limits now i) := by
  simp [validateScript, summarize, validateSteps]

theorem isValid_validateScript :
    (validateScript limits now script).isValid ↔ ∀ i step, script.restore.steps[i]? = some step →
      (validateStep limits now i step).isValid := by
  simp only [validateScript, summarize, validateSteps, List.all_eq_true, List.mem_mapIdx]
  constructor
  · intro h i step hi
    obtain ⟨hlt, rfl⟩ := List.getElem?_eq_some_iff.mp hi
    exact h _ ⟨i, hlt, rfl⟩
  · rintro h _ ⟨i, hlt, rfl⟩
    exact h i _ (List.getElem?_eq_getElem hlt)

end Scripts

end Replay
