import Replay.Proofs.Recovery.Origin
import Replay.Proofs.Recovery.Readiness
set_option autoImplicit false

/-!
Adaptation to a target device takes a pass of its own. Only a valid step is compared with the target,
so that a step that was mended, or given another snapshot, keeps the device it got then until the next
pass (`second_pass_adapts`). A complete pass over valid steps leaves nothing to adapt
(`none_elsewhere_of_clear`).
-/

namespace Replay

/-- The snapshot of the step is of another device than the given one. -/
def Step.IsElsewhere (step : Step) (device : Device) : Prop :=
  ∃ s, step.snapshot = some s ∧ s.device.id ≠ device.id

def Script.IsElsewhere (script : Script) (device : Device) (i : Nat) : Prop :=
  ∃ step, script.steps[i]? = some step ∧ step.IsElsewhere device

namespace Recovery

theorem Chain.plan_deviceIncompatible (sources : List Source) (allowRegeneration : Bool) :
    (standard sources allowRegeneration).plan .deviceIncompatible [] = [.deviceAdaptation] := by
  cases allowRegeneration <;> rfl

namespace Engine

def later (e : Engine) (now : Instant) (clock : Moment → Instant) : Engine := { e with now, clock }

section Classify

variable {e : Engine} {device : Device} (htarget : e.target = some device) {step : Step}
  {report : StepReport}
include htarget

/-- A valid step fails only if it is elsewhere. -/
theorem classify_valid_iff (hvalid : report.isValid) {failure : FailureKind} :
    e.classify step report = some failure ↔
      failure = .deviceIncompatible ∧ step.IsElsewhere device := by
  rw [classify, if_pos hvalid, htarget, Step.IsElsewhere]
  cases step.snapshot with
  | none => simp
  | some s =>
    by_cases hdevice : s.device.id = device.id
    · simp [hdevice]
    · simp [hdevice, eq_comm (a := failure)]

theorem not_elsewhere_of_classify (h : e.classify step report = none) :
    ¬ step.IsElsewhere device := by
  intro helsewhere
  have hfails := (classify_valid_iff htarget (isValid_of_classify h)).mpr ⟨rfl, helsewhere⟩
  rw [h] at hfails
  cases hfails

end Classify

theorem run_eq_of_ended {e : Engine} {cancelled : Progress → Bool} {script : Script}
    (hend : (e.run cancelled script).1.cancelled = false) : (e.run cancelled script).1 =
      e.summarize script.restore ((e.failing script).map e.recoverStep) false := by
  obtain ⟨k, -, hrun⟩ := e.exists_run cancelled script
  rw [hrun] at hend ⊢
  have hall : decide (k < (e.failing script).length) = false := hend
  rw [hall, List.take_of_length_le (Nat.le_of_not_lt (of_decide_eq_false hall))]

section Ended

variable {e : Engine} {cancelled : Progress → Bool} {script : Script}
  (hend : (e.run cancelled script).1.cancelled = false)
include hend

theorem mem_stepOutcomes {o : StepOutcome} : o ∈ (e.run cancelled script).1.stepOutcomes ↔
    ∃ c ∈ e.failing script, (e.recoverStep c).outcome = o := by
  rw [run_eq_of_ended hend]
  simp [summarize]

theorem step_of_mem_failing {c : Context} (hc : c ∈ e.failing script) :
    (e.run cancelled script).1.recoveredScript.steps[c.index]? = some (e.recoverStep c).step := by
  rw [run_eq_of_ended hend]
  exact getElem?_replaceSteps_of_mem (e.enumerates_failing script) hc

theorem elsewhere_of_mem_failing {device : Device} {c : Context} (hc : c ∈ e.failing script) :
    (e.run cancelled script).1.recoveredScript.IsElsewhere device c.index ↔
      (e.recoverStep c).step.IsElsewhere device := by
  rw [Script.IsElsewhere, step_of_mem_failing hend hc]
  simp

theorem exists_failing_of_elsewhere {device : Device} (htarget : e.target = some device) {i : Nat}
    (h : (e.run cancelled script).1.recoveredScript.IsElsewhere device i) :
    ∃ c ∈ e.failing script, c.index = i := by
  by_contra hnone
  have hother : ∀ c ∈ e.failing script, c.index ≠ i := fun c hc hi => hnone ⟨c, hc, hi⟩
  obtain ⟨step, hi, helsewhere⟩ := h
  rw [run_eq_of_ended hend] at hi
  have hi : script.restore.steps[i]? = some step :=
    (getElem?_replaceSteps_of_notMem hother).symm.trans hi
  have hclassify : e.classify step (validateStep e.limits (e.clock (.survey i)) i step) = none := by
    refine Option.eq_none_iff_forall_ne_some.mpr fun failure hfailure => ?_
    obtain ⟨c, hc, hci⟩ := exists_context hi hfailure
    exact hother c hc hci
  exact not_elsewhere_of_classify htarget hclassify helsewhere

end Ended

/-- The device of the snapshot that a strategy made for a step. What a lookup finds may be of any
device. -/
inductive DeviceFrom (c : Context) (s : Snapshot) : StrategyId → Prop
  | adapted {device : Device} (for_device : c.target = some device)
      (device_eq : s.device.id = device.id) : DeviceFrom c s .deviceAdaptation
  | mended {old : Snapshot} (had : c.step.snapshot = some old) (device_eq : s.device = old.device) :
      DeviceFrom c s .xmlRepair
  | found : DeviceFrom c s .cacheLookup
  | generated (device_eq : s.device.id = "synthetic") : DeviceFrom c s .xmlRegeneration

theorem deviceFrom_recoverStep {e : Engine} {sources : List Source} {allowRegeneration : Bool}
    (hchain : e.chain = .standard sources allowRegeneration) {c : Context} {id : StrategyId}
    (hid : (e.recoverStep c).outcome.recoveredBy = some id) :
    ∃ s, (e.recoverStep c).step = { c.step with snapshot := some s } ∧ DeviceFrom c s id := by
  obtain ⟨tried, strategy, rest, after, hplan, -, haccepts, heq⟩ | ⟨-, heq⟩ := e.recoverStep_ends c
  · have hplanned : strategy ∈ e.chain.plan c.failure c.issues := by simp [hplan]
    obtain ⟨-, s, hs, -⟩ := accepts?_eq_some haccepts
    obtain ⟨t, -, hlink⟩ := Chain.mem_plan hplanned
    rw [hchain] at hlink
    have hsigned := (Chain.signed_standard sources allowRegeneration).linked t strategy hlink c
    rw [heq, Option.some.injEq, hsigned] at hid
    subst hid
    refine ⟨s, by rw [heq, hs], ?_⟩
    obtain rfl | rfl | rfl | rfl := Chain.mem_standard hlink
    · obtain ⟨old, hold, rfl⟩ := Strategy.proposed_xmlRepair hs
      exact .mended hold (by simp)
    · exact .found
    · obtain ⟨device, old, hdevice, -, rfl⟩ := Strategy.proposed_deviceAdaptation hs
      exact .adapted hdevice rfl
    · obtain rfl := Strategy.proposed_regeneration hs
      exact .generated rfl
  · rw [heq] at hid
    cases hid

/-- All steps of a script are valid, at any reading of the clock, and none refers to a pool. -/
structure Clear (limits : Limits) (script : Script) : Prop where
  unpooled : script.restore = script
  valid : ∀ now, (validateScript limits now script).isValid

theorem clear_recoveredScript {e : Engine} {cancelled : Progress → Bool} {script : Script}
    (hend : (e.run cancelled script).1.cancelled = false)
    (hnothing : (e.run cancelled script).1.remainingIssues = []) :
    Clear e.limits (e.run cancelled script).1.recoveredScript :=
  ⟨e.restore_recoveredScript cancelled script, isValid_recoveredScript hend hnothing⟩

section Clear

variable {e : Engine} {device : Device} (htarget : e.target = some device) {script : Script}
  (hclear : Clear e.limits script)
include htarget hclear

theorem failing_of_clear {c : Context} (hc : c ∈ e.failing script) :
    c.failure = .deviceIncompatible ∧ c.issues = [] ∧ script.IsElsewhere device c.index := by
  have hshows := (e.enumerates_failing script).shows c hc
  have hstep := hshows.step_eq
  rw [hclear.unpooled] at hstep
  have hvalid : (e.surveyed c).isValid :=
    (isValid_validateScript ..).mp (hclear.valid _) _ _ hshows.step_eq
  obtain ⟨hfailure, helsewhere⟩ := (classify_valid_iff htarget hvalid).mp hshows.failure_eq
  exact ⟨hfailure, by rw [hshows.issues_eq, if_pos hvalid], c.step, hstep, helsewhere⟩

theorem exists_failing_of_clear {i : Nat} (h : script.IsElsewhere device i) :
    ∃ c ∈ e.failing script, c.index = i := by
  obtain ⟨step, hi, helsewhere⟩ := h
  rw [← hclear.unpooled] at hi
  have hvalid := (isValid_validateScript ..).mp (hclear.valid (e.clock (.survey i))) i step hi
  exact exists_context hi ((classify_valid_iff htarget hvalid).mpr ⟨rfl, helsewhere⟩)

theorem run_clean_iff (cancelled : Progress → Bool) :
    (e.run cancelled script).1 = .clean script e.now ↔ ∀ i, ¬ script.IsElsewhere device i := by
  constructor
  · intro hrun i hi
    obtain ⟨c, hc, -⟩ := exists_failing_of_clear htarget hclear hi
    have hend : (e.run cancelled script).1.cancelled = false := by rw [hrun]; rfl
    have hmem := (mem_stepOutcomes hend).mpr ⟨c, hc, rfl⟩
    rw [hrun] at hmem
    cases hmem
  · intro hnone
    have hfailing : e.failing script = [] := by
      refine List.eq_nil_iff_forall_not_mem.mpr fun c hc => ?_
      exact hnone _ (failing_of_clear htarget hclear hc).2.2
    obtain ⟨k, -, hrun⟩ := e.exists_run cancelled script
    rw [hrun, hfailing, hclear.unpooled, List.take_nil, List.map_nil]
    exact e.summarize_nil script

theorem outcome_of_clear {cancelled : Progress → Bool} {o : StepOutcome}
    (ho : o ∈ (e.run cancelled script).1.stepOutcomes) :
    o.failure = .deviceIncompatible ∧ o.foundIssues = [] ∧ script.IsElsewhere device o.index := by
  obtain ⟨k, -, hrun⟩ := e.exists_run cancelled script
  simp only [hrun, summarize, List.map_map, List.mem_map, Function.comp_apply] at ho
  obtain ⟨c, hc, rfl⟩ := ho
  rw [failure_recoverStep, foundIssues_recoverStep, index_recoverStep]
  exact failing_of_clear htarget hclear (List.mem_of_mem_take hc)

theorem remainingIssues_of_clear (cancelled : Progress → Bool) :
    (e.run cancelled script).1.remainingIssues = [] := by
  obtain ⟨k, -, hrun⟩ := e.exists_run cancelled script
  rw [hrun]
  simp only [summarize, List.flatMap_eq_nil_iff, List.mem_map, forall_exists_index, and_imp]
  rintro _ c hc rfl
  rw [unresolved, foundIssues_recoverStep,
    (failing_of_clear htarget hclear (List.mem_of_mem_take hc)).2.1]
  rfl

variable {sources : List Source} {allowRegeneration : Bool}
  (hchain : e.chain = .standard sources allowRegeneration)
include hchain

theorem recoveredBy_of_clear {c : Context} (hc : c ∈ e.failing script) {id : StrategyId}
    (hid : (e.recoverStep c).outcome.recoveredBy = some id) : id = .deviceAdaptation := by
  obtain ⟨hfailure, hissues, -⟩ := failing_of_clear htarget hclear hc
  obtain ⟨tried, strategy, rest, after, hplan, -, -, heq⟩ | ⟨-, heq⟩ := e.recoverStep_ends c
  · rw [hchain, hfailure, hissues, Chain.plan_deviceIncompatible] at hplan
    have hmem : strategy ∈ [Strategy.deviceAdaptation] := by simp [hplan]
    obtain rfl := List.mem_singleton.mp hmem
    rw [heq, Option.some.injEq, Strategy.signs_deviceAdaptation] at hid
    exact hid.symm
  · rw [heq] at hid
    cases hid

end Clear

section Standard

variable {e : Engine} {sources : List Source} {allowRegeneration : Bool}
  (hchain : e.chain = .standard sources allowRegeneration) {device : Device}
  (htarget : e.target = some device) {script : Script} {c : Context} (hc : c ∈ e.failing script)
include hchain htarget hc

theorem elsewhere_recoverStep {id : StrategyId}
    (hid : (e.recoverStep c).outcome.recoveredBy = some id) :
    (id = .deviceAdaptation → ¬ (e.recoverStep c).step.IsElsewhere device) ∧
      (id = .xmlRepair →
        ((e.recoverStep c).step.IsElsewhere device ↔ c.step.IsElsewhere device)) ∧
      (id = .xmlRegeneration →
        ((e.recoverStep c).step.IsElsewhere device ↔ "synthetic" ≠ device.id)) := by
  obtain ⟨s, hstep, hdevice⟩ := deviceFrom_recoverStep hchain hid
  have helsewhere : (e.recoverStep c).step.IsElsewhere device ↔ s.device.id ≠ device.id := by
    rw [hstep]
    simp [Step.IsElsewhere]
  rw [helsewhere]
  cases hdevice with
  | @adapted other for_device device_eq =>
    have hsame : device = other := by
      rw [((e.enumerates_failing script).shows c hc).target_eq, htarget] at for_device
      exact Option.some.inj for_device
    exact ⟨fun _ hne => hne (hsame ▸ device_eq), nofun, nofun⟩
  | mended had device_eq =>
    refine ⟨nofun, fun _ => ?_, nofun⟩
    rw [Step.IsElsewhere, had, device_eq]
    simp
  | found => exact ⟨nofun, nofun, nofun⟩
  | generated device_eq => exact ⟨nofun, nofun, fun _ => by rw [device_eq]⟩

end Standard

/-- A pass over valid steps that came to its end and recovered all that failed has adapted them. -/
theorem none_elsewhere_of_clear {e : Engine} {sources : List Source} {allowRegeneration : Bool}
    (hchain : e.chain = .standard sources allowRegeneration) {device : Device}
    (htarget : e.target = some device) {script : Script} (hclear : Clear e.limits script)
    {cancelled : Progress → Bool} (hend : (e.run cancelled script).1.cancelled = false)
    (hall : ∀ o ∈ (e.run cancelled script).1.stepOutcomes, o.recoveredBy.isSome) (i : Nat) :
    ¬ (e.run cancelled script).1.recoveredScript.IsElsewhere device i := by
  intro hi
  obtain ⟨c, hc, rfl⟩ := exists_failing_of_elsewhere hend htarget hi
  have hmem := (mem_stepOutcomes hend).mpr ⟨c, hc, rfl⟩
  obtain ⟨id, hid⟩ := Option.isSome_iff_exists.mp (hall _ hmem)
  have hadapted := recoveredBy_of_clear htarget hclear hchain hc hid
  exact (elsewhere_recoverStep hchain htarget hc hid).1 hadapted
    ((elsewhere_of_mem_failing hend hc).mp hi)

/-- A pass for a target device that came to its end and left no issues leaves to the next one what it
did not adapt: the mended steps that were captured elsewhere, the generated ones, and those that got a
snapshot of another device from a lookup. The next pass reports these steps and no others, as being of
another device, so that it is clean exactly if there are none; and once it has recovered all of them,
the pass after it is clean. The clock may move on all the time. -/
theorem second_pass_adapts {e : Engine} {sources : List Source} {allowRegeneration : Bool}
    (hchain : e.chain = .standard sources allowRegeneration) {device : Device}
    (htarget : e.target = some device) (cancelled : Progress → Bool) (script : Script) :
    let r := (e.run cancelled script).1
    let left := r.recoveredScript.IsElsewhere device
    r.cancelled = false → r.remainingIssues = [] →
      (∀ i, left i → ∃ o ∈ r.stepOutcomes, o.index = i ∧ o.recoveredBy ≠ some .deviceAdaptation) ∧
      (∀ o ∈ r.stepOutcomes,
        (o.recoveredBy = some .xmlRepair →
          (left o.index ↔ script.restore.IsElsewhere device o.index)) ∧
        (o.recoveredBy = some .xmlRegeneration → (left o.index ↔ "synthetic" ≠ device.id))) ∧
      ∀ now' clock' cancelled',
        let again := ((e.later now' clock').run cancelled' r.recoveredScript).1
        (again = .clean r.recoveredScript now' ↔ ∀ i, ¬ left i) ∧
        (∀ o ∈ again.stepOutcomes,
          o.failure = .deviceIncompatible ∧ o.foundIssues = [] ∧ left o.index) ∧
        (again.cancelled = false → ∀ i, left i → ∃ o ∈ again.stepOutcomes, o.index = i) ∧
        (again.cancelled = false → (∀ o ∈ again.stepOutcomes, o.recoveredBy.isSome) →
          ∀ now'' clock'' cancelled'',
            ((e.later now'' clock'').run cancelled'' again.recoveredScript).1 =
              .clean again.recoveredScript now'') := by
  intro r left hend hnothing
  have hclear : Clear e.limits r.recoveredScript := clear_recoveredScript hend hnothing
  have hleft {c : Context} (hc : c ∈ e.failing script) :
      left c.index ↔ (e.recoverStep c).step.IsElsewhere device := elsewhere_of_mem_failing hend hc
  refine ⟨fun i hi => ?_, fun o ho => ?_, fun now' clock' cancelled' => ?_⟩
  · obtain ⟨c, hc, rfl⟩ := exists_failing_of_elsewhere hend htarget hi
    have hmem : (e.recoverStep c).outcome ∈ r.stepOutcomes :=
      (mem_stepOutcomes hend).mpr ⟨c, hc, rfl⟩
    refine ⟨_, hmem, e.index_recoverStep c, fun hid => ?_⟩
    exact (elsewhere_recoverStep hchain htarget hc hid).1 rfl ((hleft hc).mp hi)
  · obtain ⟨c, hc, rfl⟩ := (mem_stepOutcomes hend).mp ho
    have hbefore : script.restore.IsElsewhere device c.index ↔ c.step.IsElsewhere device := by
      rw [Script.IsElsewhere, ((e.enumerates_failing script).shows c hc).step_eq]
      simp
    rw [index_recoverStep, hleft hc, hbefore]
    exact ⟨fun hid => (elsewhere_recoverStep hchain htarget hc hid).2.1 rfl,
      fun hid => (elsewhere_recoverStep hchain htarget hc hid).2.2 rfl⟩
  · intro again
    -- The engine keeps its limits, its chain and its target when time goes on.
    have htarget' : (e.later now' clock').target = some device := htarget
    have hchain' : (e.later now' clock').chain = .standard sources allowRegeneration := hchain
    have hclear' : Clear (e.later now' clock').limits r.recoveredScript := hclear
    refine ⟨run_clean_iff htarget' hclear' cancelled',
      fun o ho => outcome_of_clear htarget' hclear' ho, fun hend' i hi => ?_,
      fun hend' hall now'' clock'' cancelled'' => ?_⟩
    · obtain ⟨c, hc, rfl⟩ := exists_failing_of_clear htarget' hclear' hi
      have hmem : ((e.later now' clock').recoverStep c).outcome ∈ again.stepOutcomes :=
        (mem_stepOutcomes hend').mpr ⟨c, hc, rfl⟩
      exact ⟨_, hmem, index_recoverStep _ c⟩
    · have htarget'' : (e.later now'' clock'').target = some device := htarget
      have hleft' : Clear (e.later now' clock').limits again.recoveredScript :=
        clear_recoveredScript hend' (remainingIssues_of_clear htarget' hclear' cancelled')
      have hclear'' : Clear (e.later now'' clock'').limits again.recoveredScript := hleft'
      exact (run_clean_iff htarget'' hclear'' cancelled'').mpr
        (none_elsewhere_of_clear hchain' htarget' hclear' hend' hall)

def tablet : Device := { id := "tablet", name := "Tablet" }

/-- A step that was captured on a phone; the end of its content is missing. -/
def tornOnPhone : Script where
  steps :=
    [{ id := "pay"
       locator := { textField := some "OK" }
       snapshot := some
        { content := "<node bounds=\"\">"
          capturedAt := some ⟨0, 0⟩
          device := { id := "phone", name := "Phone" }
          page := { title := "Cart" } } }]

def forTablet : Engine := standardFor forSmallPages [] (some tablet) ⟨0, 0⟩

def tornReport : Report := (forTablet.run (fun _ => false) tornOnPhone).1

def tornAgain : Report :=
  ((forTablet.later ⟨5, 0⟩ fun _ => ⟨5, 0⟩).run (fun _ => false) tornReport.recoveredScript).1

theorem run_tornOnPhone : tornReport.cancelled = false ∧ tornReport.remainingIssues = [] ∧
    tornReport.stepOutcomes.map (·.recoveredBy) = [some .xmlRepair] := by decide +kernel

theorem run_again_tornOnPhone : tornAgain.cancelled = false ∧
    tornAgain.stepOutcomes.map (fun o => (o.index, o.failure, o.recoveredBy)) =
      [(0, .deviceIncompatible, some .deviceAdaptation)] := by decide +kernel

theorem left_elsewhere_tornOnPhone :
    (tornReport.cancelled = false ∧ tornReport.remainingIssues = [] ∧
      tornReport.stepOutcomes.map (·.recoveredBy) = [some .xmlRepair]) ∧
      tornAgain.stepOutcomes.map (fun o => (o.index, o.failure, o.recoveredBy)) =
        [(0, .deviceIncompatible, some .deviceAdaptation)] :=
  ⟨run_tornOnPhone, run_again_tornOnPhone.2⟩

theorem second_pass_adapts_tornOnPhone :
    tornReport.recoveredScript.IsElsewhere tablet 0 ∧
      ((forTablet.later ⟨9, 0⟩ fun _ => ⟨9, 0⟩).run (fun _ => false) tornAgain.recoveredScript).1 =
        .clean tornAgain.recoveredScript ⟨9, 0⟩ := by
  obtain ⟨hend, hnothing, -⟩ := run_tornOnPhone
  obtain ⟨hend', houtcomes⟩ := run_again_tornOnPhone
  obtain ⟨o, ho, heq⟩ := List.map_eq_singleton_iff.mp houtcomes
  obtain ⟨hindex, hpair⟩ := Prod.mk.inj heq
  have hby : o.recoveredBy = some .deviceAdaptation := (Prod.mk.inj hpair).2
  have hmem : o ∈ tornAgain.stepOutcomes := by rw [ho]; exact List.mem_singleton_self o
  have hall : ∀ o ∈ tornAgain.stepOutcomes, o.recoveredBy.isSome := by
    rw [ho]
    exact List.forall_mem_singleton.mpr (by rw [hby]; rfl)
  rw [tornAgain] at hend' hmem hall ⊢
  rw [tornReport] at hend hnothing hend' hmem hall ⊢
  obtain ⟨-, -, hnext⟩ := second_pass_adapts (rfl : forTablet.chain = .standard [] true)
    (rfl : forTablet.target = some tablet) (fun _ => false) tornOnPhone hend hnothing
  obtain ⟨-, hreported, -, hthird⟩ := hnext ⟨5, 0⟩ (fun _ => ⟨5, 0⟩) (fun _ => false)
  exact ⟨hindex ▸ (hreported o hmem).2.2,
    hthird hend' hall ⟨9, 0⟩ (fun _ => ⟨9, 0⟩) (fun _ => false)⟩

end Engine

end Recovery

end Replay
