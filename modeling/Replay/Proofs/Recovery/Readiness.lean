import Replay.Execution
import Replay.Proofs.Recovery.Codes
set_option autoImplicit false

/-!
A report without leftovers means a ready script. The leftovers are old codes only, so the point is
that a step that is still invalid after its turn still has one of its old codes
(`exists_unresolved`).
-/

namespace Replay.Recovery.Engine

theorem exists_unresolved {e : Engine} {script : Script} {c : Context} (hc : e.Shows script c)
    {now : Instant}
    (hinvalid : (validateStep e.limits now c.index (e.recoverStep c).step).isValid = false) :
    ∃ text, text ∈ e.unresolved (e.recoverStep c) := by
  obtain ⟨code, hcode, hissue⟩ := exists_of_invalid _ _ _ _ hinvalid
  -- The code blocked the step in the survey, so it is one of the issues that its turn was about.
  have hbefore : (e.surveyed c).hasIssue code := e.hasIssue_recoverStep c hcode hissue
  have hissues : c.issues = (e.surveyed c).issues := by
    rw [hc.issues_eq, if_neg]
    intro hvalid
    exact hcode ((isValid_iff_hasIssue ..).mp hvalid code hbefore)
  obtain ⟨i, hi, hic⟩ := List.any_eq_true.mp hbefore
  obtain rfl : i.code = code := by simpa using hic
  rw [unresolved, index_recoverStep, foundIssues_recoverStep]
  refine ⟨_, List.mem_map_of_mem (List.mem_filter.mpr ⟨hissues ▸ hi, ?_⟩)⟩
  rw [hasIssue_clock _ _ now _ _ hcode]
  exact hissue

theorem isValid_of_classify {e : Engine} {step : Step} {report : StepReport}
    (h : e.classify step report = none) : report.isValid := by
  rw [classify] at h
  split at h
  · assumption
  · split at h <;> cases h

theorem isValid_recoveredScript {e : Engine} {cancelled : Progress → Bool} {script : Script}
    (hend : (e.run cancelled script).1.cancelled = false)
    (hnothing : (e.run cancelled script).1.remainingIssues = []) (now : Instant) :
    (validateScript e.limits now (e.run cancelled script).1.recoveredScript).isValid := by
  rw [isValid_validateScript, restore_recoveredScript]
  intro i after ha
  have hlt := (List.getElem?_eq_some_iff.mp ha).1
  rw [length_recoveredScript] at hlt
  obtain ⟨rfl, hclassify⟩ | ⟨c, hc, rfl, -, rfl, hleft⟩ :=
    e.step_recoveredScript cancelled script (List.getElem?_eq_getElem hlt) ha
  · rw [isValid_validateStep_clock _ now (e.clock (.survey i))]
    exact isValid_of_classify (hclassify hend)
  · cases hvalid : (validateStep e.limits now c.index (e.recoverStep c).step).isValid with
    | true => rfl
    | false =>
      obtain ⟨text, htext⟩ := exists_unresolved hc hvalid
      simpa [hnothing] using hleft text htext

/-- A report on a pass that came to its end and left nothing over means that the recovered script is
valid, and that the bundle made from the report is ready. The clock may move on in between. -/
theorem ready_of_nothing_left (e : Engine) (cancelled : Progress → Bool) (script : Script)
    (now : Instant) (hend : (e.run cancelled script).1.cancelled = false)
    (hnothing : (e.run cancelled script).1.remainingIssues = []) :
    (validateScript e.limits now (e.run cancelled script).1.recoveredScript).isValid ∧
      (ExecutionBundle.prepare e.limits now script (some (e.run cancelled script).1)).isReady := by
  have hvalid := isValid_recoveredScript hend hnothing now
  exact ⟨hvalid, hvalid⟩

def supplying : Engine where
  limits := { minSizeBytes := 16 }
  chain :=
    { links := [(.failure .missing, ⟨.cacheLookup, fun _ => ⟨.recovery .cacheLookup
        { content := "<hierarchy><node class=\"a\" bounds=\"[0,0][9,9]\"/></hierarchy>" }, []⟩⟩)]
      fallback := .manualGuidance }
  now := ⟨0, 0⟩

def bareTap : Script where
  steps := [{ id := "tap", locator := { textField := some "OK" } }]

theorem ready_of_nothing_left_bareTap :
    (validateScript supplying.limits ⟨0, 0⟩ bareTap).isValid = false ∧
      (supplying.run (fun _ => false) bareTap).1.cancelled = false ∧
      (supplying.run (fun _ => false) bareTap).1.remainingIssues = [] ∧
      (ExecutionBundle.prepare supplying.limits ⟨5, 0⟩ bareTap
        (some (supplying.run (fun _ => false) bareTap).1)).isReady := by
  have hend : (supplying.run (fun _ => false) bareTap).1.cancelled = false := by decide +kernel
  have hnothing : (supplying.run (fun _ => false) bareTap).1.remainingIssues = [] := by
    decide +kernel
  refine ⟨by decide +kernel, hend, hnothing, ?_⟩
  exact (ready_of_nothing_left supplying (fun _ => false) bareTap ⟨5, 0⟩ hend hnothing).2

end Replay.Recovery.Engine
