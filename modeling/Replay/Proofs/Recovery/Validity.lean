import Replay.Proofs.Recovery.Severity
set_option autoImplicit false

namespace Replay.Recovery.Engine

def standardFor (config : Config) (sources : List Source) (target : Option Device)
    (now : Instant) : Engine :=
  target.elim (standard config sources now) (standard config sources now).withTarget

theorem standardFor_spec (config : Config) (sources : List Source) (target : Option Device)
    (now : Instant) : (standardFor config sources target now).chain.Careful ∧
      (∀ m, (standardFor config sources target now).clock m = now) ∧
      ∀ d, (standardFor config sources target now).target = some d → d.hasIdentity := by
  cases target with
  | none => exact ⟨Chain.careful_standard .., fun _ => rfl, nofun⟩
  | some device =>
    refine ⟨Chain.careful_standard .., fun _ => rfl, fun d hd => ?_⟩
    have hfiltered : (some device).filter (·.hasIdentity) = some d := hd
    obtain ⟨hd, hidentity⟩ := Option.filter_eq_some_iff.mp hfiltered
    exact hidentity

section Run

variable (e : Engine) (cancelled : Progress → Bool) (script : Script)

theorem recovered_cases {now now' : Instant} {i : Nat} {before after : StepReport}
    (hb : (validateScript e.limits now script).steps[i]? = some before)
    (ha : (validateScript e.limits now'
      (e.run cancelled script).1.recoveredScript).steps[i]? = some after) :
    (∃ step, before = validateStep e.limits now i step ∧
      after = validateStep e.limits now' i step) ∨
    ∃ c, e.Shows script.restore c ∧ before = validateStep e.limits now c.index c.step ∧
      after = validateStep e.limits now' c.index (e.recoverStep c).step := by
  rw [getElem?_validateScript, Option.map_eq_some_iff] at hb ha
  rw [restore_recoveredScript] at ha
  obtain ⟨step, hi, rfl⟩ := hb
  obtain ⟨step', hi', rfl⟩ := ha
  obtain ⟨rfl, -⟩ | ⟨c, hc, rfl, rfl, rfl, -⟩ := e.step_recoveredScript cancelled script hi hi'
  · exact Or.inl ⟨step', rfl, rfl⟩
  · exact Or.inr ⟨c, hc, rfl, rfl⟩

theorem length_validate_recoveredScript (now now' : Instant) :
    (validateScript e.limits now' (e.run cancelled script).1.recoveredScript).steps.length =
      (validateScript e.limits now script).steps.length := by
  rw [length_validateScript, length_validateScript, restore_recoveredScript,
    length_recoveredScript]

theorem valid_stays {now now' : Instant} {i : Nat} {before after : StepReport}
    (hb : (validateScript e.limits now script).steps[i]? = some before)
    (ha : (validateScript e.limits now'
      (e.run cancelled script).1.recoveredScript).steps[i]? = some after)
    (hvalid : before.isValid) : after.isValid := by
  obtain ⟨step, rfl, rfl⟩ | ⟨c, hc, rfl, rfl⟩ := e.recovered_cases cancelled script hb ha
  · rw [isValid_validateStep_clock _ now' now]
    exact hvalid
  · exact e.isValid_recoverStep c hvalid

end Run

theorem countP_le_of_getElem? {α : Type} {p : α → Bool} {l l' : List α}
    (hlength : l'.length = l.length)
    (h : ∀ (i : Nat) (b a : α), l[i]? = some b → l'[i]? = some a → p b → p a) :
    l.countP p ≤ l'.countP p := by
  induction l generalizing l' with
  | nil => exact Nat.zero_le _
  | cons b l ih =>
    cases l' with
    | nil => cases hlength
    | cons a l' =>
      have hrest := ih (Nat.succ.inj hlength) fun i b a hb ha => h (i + 1) b a hb ha
      have hfirst := h 0 b a rfl rfl
      rw [List.countP_cons, List.countP_cons]
      split
      · rw [if_pos (hfirst ‹_›)]
        omega
      · omega

/-- A pass never loses a valid step: whatever the limits, the device, the strategies and their
results are, and wherever it is cancelled, a step that was valid still is, at any two readings of
the clock. Along the standard chain, and with one reading of the clock, no step gets more severe
either. -/
theorem run_keeps_valid_steps :
    (∀ (e : Engine) (cancelled : Progress → Bool) (script : Script) (now now' : Instant),
      let before := validateScript e.limits now script
      let after := validateScript e.limits now' (e.run cancelled script).1.recoveredScript
      after.steps.length = before.steps.length ∧
      (∀ (i : Nat) (b a : StepReport), before.steps[i]? = some b → after.steps[i]? = some a →
        b.isValid → a.isValid) ∧
      before.validSteps ≤ after.validSteps) ∧
    ∀ (config : Config) (sources : List Source) (target : Option Device)
      (cancelled : Progress → Bool) (script : Script) (now : Instant),
      let e := standardFor config sources target now
      let before := validateScript e.limits now script
      let after := validateScript e.limits now (e.run cancelled script).1.recoveredScript
      ∀ (i : Nat) (b a : StepReport), before.steps[i]? = some b → after.steps[i]? = some a →
        (severityOf a).rank ≤ (severityOf b).rank := by
  constructor
  · intro e cancelled script now now' before after
    have hlength : after.steps.length = before.steps.length :=
      e.length_validate_recoveredScript cancelled script now now'
    have hvalid (i : Nat) (b a : StepReport) (hb : before.steps[i]? = some b)
        (ha : after.steps[i]? = some a) : b.isValid → a.isValid :=
      e.valid_stays cancelled script hb ha
    exact ⟨hlength, hvalid, countP_le_of_getElem? hlength hvalid⟩
  · intro config sources target cancelled script now e before after i b a hb ha
    obtain ⟨hcareful, hclock, htarget⟩ := standardFor_spec config sources target now
    obtain ⟨step, rfl, rfl⟩ | ⟨c, hc, rfl, rfl⟩ := e.recovered_cases cancelled script hb ha
    · exact Nat.le_refl _
    · exact severity_recoverStep hcareful hclock htarget hc

def spoiling : Engine where
  limits := { minSizeBytes := 16 }
  chain :=
    { links := [(.failure .deviceIncompatible, ⟨.deviceAdaptation, fun _ =>
        ⟨.recovery .deviceAdaptation { content := "<hierarchy>" }, []⟩⟩)]
      fallback := .manualGuidance }
  target := some { id := "tablet" }
  now := ⟨0, 0⟩

def foreignStep : Step where
  id := "tap"
  locator := { textField := some "OK" }
  snapshot := some
    { content := "<hierarchy><node class=\"a\" bounds=\"[0,0][9,9]\"/></hierarchy>" }

theorem run_keeps_valid_steps_foreignStep :
    (spoiling.run (fun _ => false) { steps := [foreignStep] }).1.stepOutcomes.length = 1 ∧
      ∃ b a, (validateScript spoiling.limits ⟨0, 0⟩ { steps := [foreignStep] }).steps[0]? = some b ∧
        b.isValid ∧
        (validateScript spoiling.limits ⟨5, 0⟩
          (spoiling.run (fun _ => false) { steps := [foreignStep] }).1.recoveredScript).steps[0]? =
            some a ∧
        a.isValid := by
  obtain ⟨hlength, hvalid, -⟩ :=
    run_keeps_valid_steps.1 spoiling (fun _ => false) { steps := [foreignStep] } ⟨0, 0⟩ ⟨5, 0⟩
  have hb : (validateScript spoiling.limits ⟨0, 0⟩ { steps := [foreignStep] }).steps[0]? =
      some (validateStep spoiling.limits ⟨0, 0⟩ 0 foreignStep) := rfl
  have hbvalid : (validateStep spoiling.limits ⟨0, 0⟩ 0 foreignStep).isValid := by decide +kernel
  refine ⟨by decide +kernel, _, _, hb, hbvalid, List.getElem?_eq_getElem ?_, ?_⟩
  · rw [hlength]
    decide
  · exact hvalid 0 _ _ hb (List.getElem?_eq_getElem _) hbvalid

end Replay.Recovery.Engine
