import Replay.Proofs.Recovery.Pass
import Replay.Proofs.Recovery.Plan
import Replay.Proofs.Recovery.Proposals
set_option autoImplicit false

/-!
A report tells what was done to the script. An outcome lists what was tried of the plan, in order,
and says which result the step has now (`traced_recoverStep`); the outcomes come in the order of the
steps, and all that they do not speak of is as it was (`run_told`).
-/

namespace Replay.Recovery

namespace Engine

inductive Traced (chain : Chain) (before after : Step) (o : StepOutcome) : Prop
  | recovered (failed : List Result) (last : Result) (s : Snapshot)
      (attempts_eq : o.attempts = failed ++ [last])
      (planned : o.attempts.map (·.strategy) <+:
        (chain.plan o.failure o.foundIssues).map (·.id))
      (distinct : (o.attempts.map (·.strategy)).Nodup)
      (all_failed : ∀ r ∈ failed, r.success = false)
      (succeeded : last.success = true)
      (by_last : o.recoveredBy = some last.strategy)
      (found : last.recovered = some s)
      (after_eq : after = { before with snapshot := some s })
  /-- The whole plan failed, the fallback too, and the step is as it was. -/
  | unrecovered (failed : List Result) (last : Result)
      (attempts_eq : o.attempts = failed ++ [last])
      (planned : failed.map (·.strategy) = (chain.plan o.failure o.foundIssues).map (·.id))
      (distinct : (failed.map (·.strategy)).Nodup)
      (all_failed : ∀ r ∈ o.attempts, r.success = false)
      (by_none : o.recoveredBy = none)
      (by_fallback : ∃ c : Context, c.step = before ∧ last = (chain.fallback.attempt c).result)
      (after_eq : after = before)

theorem strategies_refused {chain : Chain} (hsigned : chain.Signed) {c : Context}
    {ss : List Strategy} (hplan : ∀ s ∈ ss, s ∈ chain.plan c.failure c.issues) :
    (ss.map (refused c)).map (·.strategy) = ss.map (·.id) := by
  rw [List.map_map]
  refine List.map_congr_left fun s hs => ?_
  obtain ⟨t, -, hlink⟩ := Chain.mem_plan (hplan s hs)
  exact (strategy_refused c s).trans (hsigned.linked t s hlink c)

theorem traced_recoverStep {e : Engine} (hsigned : e.chain.Signed) (c : Context) :
    Traced e.chain c.step (e.recoverStep c).step (e.recoverStep c).outcome := by
  have hnodup := e.chain.nodup_plan c.failure c.issues
  have hfailed (ss : List Strategy) : ∀ r ∈ ss.map (refused c), r.success = false :=
    List.forall_mem_map.mpr fun s _ => success_refused c s
  obtain ⟨tried, s, rest, after, hplan, -, haccepts, heq⟩ | ⟨-, heq⟩ := e.recoverStep_ends c
  · obtain ⟨hsuccess, found, hfound, -⟩ := accepts?_eq_some haccepts
    have hmem : ∀ t ∈ tried ++ s :: rest, t ∈ e.chain.plan c.failure c.issues := by simp [hplan]
    have htried := strategies_refused hsigned fun t ht =>
      hmem t (List.mem_append_left (s :: rest) ht)
    have hlast : (s.attempt c).result.strategy = s.id := by
      obtain ⟨t, -, hlink⟩ := Chain.mem_plan (hmem s (by simp))
      exact hsigned.linked t s hlink c
    have hids : (tried.map (refused c) ++ [(s.attempt c).result]).map (·.strategy) <+:
        (e.chain.plan c.failure c.issues).map (·.id) := by
      refine ⟨rest.map (·.id), ?_⟩
      simp only [List.map_append, htried, List.map_cons, List.map_nil, hlast, hplan,
        List.append_assoc, List.singleton_append]
    rw [heq]
    exact .recovered _ _ found rfl hids (hnodup.sublist hids.sublist) (hfailed tried) hsuccess rfl
      hfound (by rw [hfound])
  · have hids := strategies_refused hsigned (c := c) fun t ht => ht
    rw [heq]
    refine .unrecovered _ _ rfl hids (hids ▸ hnodup) ?_ rfl ⟨c, rfl, rfl⟩ rfl
    refine List.forall_mem_append.mpr ⟨hfailed _, ?_⟩
    exact List.forall_mem_singleton.mpr (hsigned.gives_up c)

/-- A report tells all that a pass did to a script: an outcome traces its step, and whatever has no
outcome is as it was. -/
structure Told (chain : Chain) (input : Script) (r : Report) : Prop where
  ascending : (r.stepOutcomes.map (·.index)).Pairwise (· < ·)
  traced : ∀ o ∈ r.stepOutcomes, ∃ before after, input.steps[o.index]? = some before ∧
    r.recoveredScript.steps[o.index]? = some after ∧ o.id = before.id ∧
    Traced chain before after o
  others : ∀ i, (∀ o ∈ r.stepOutcomes, o.index ≠ i) →
    r.recoveredScript.steps[i]? = input.steps[i]?
  length_eq : r.recoveredScript.steps.length = input.steps.length
  frame : { r.recoveredScript with steps := input.steps } = input

theorem id_recoverStep (e : Engine) (c : Context) : (e.recoverStep c).outcome.id = c.step.id := by
  obtain ⟨_, _, _, _, -, -, -, heq⟩ | ⟨-, heq⟩ := e.recoverStep_ends c <;> rw [heq]

/-- If the strategies sign their results and the fallback never succeeds, the report of a pass tells
all that was done to the script, wherever the pass is cancelled. -/
theorem run_told (e : Engine) (hsigned : e.chain.Signed) (cancelled : Progress → Bool)
    (script : Script) : Told e.chain script.restore (e.run cancelled script).1 := by
  obtain ⟨k, -, hrun⟩ := e.exists_run cancelled script
  have hcs := (e.enumerates_failing script).take k
  generalize (e.failing script).take k = cs at hrun hcs
  rw [hrun, summarize]
  constructor
  case ascending => simpa [List.pairwise_map] using hcs.ordered
  case traced =>
    simp only [List.map_map, List.forall_mem_map, Function.comp_apply, index_recoverStep]
    intro c hc
    exact ⟨c.step, _, (hcs.shows c hc).step_eq, getElem?_replaceSteps_of_mem hcs hc,
      e.id_recoverStep c, traced_recoverStep hsigned c⟩
  case others =>
    simp only [List.map_map, List.forall_mem_map, Function.comp_apply, index_recoverStep]
    exact fun i hi => getElem?_replaceSteps_of_notMem hi
  case length_eq => exact length_replaceSteps _ _
  case frame => rfl

def secondChoice : Engine where
  limits := { minSizeBytes := 16 }
  chain :=
    { links :=
        [(.failure .missing, ⟨.cacheLookup, fun _ =>
            ⟨.recovery .cacheLookup { content := "<" }, []⟩⟩),
          (.failure .missing, ⟨.xmlRegeneration, fun c =>
            if c.step.locator.isEmpty then ⟨.failure .xmlRegeneration "no locator", []⟩
            else ⟨.recovery .xmlRegeneration
              { content := "<hierarchy><node class=\"a\" bounds=\"[0,0][9,9]\"/></hierarchy>" },
              []⟩⟩)]
      fallback := .manualGuidance }
  now := ⟨0, 0⟩

def tapAndLost : Script where
  steps := [{ id := "tap", locator := { textField := some "OK" } }, { id := "lost" }]

theorem signed_secondChoice : secondChoice.chain.Signed where
  linked t s h := by
    simp only [secondChoice, List.mem_cons, List.not_mem_nil, or_false, Prod.mk.injEq] at h
    obtain ⟨-, rfl⟩ | ⟨-, rfl⟩ := h
    · exact fun _ => rfl
    · intro c
      simp only
      split <;> rfl
  gives_up := Strategy.success_manualGuidance

theorem run_told_tapAndLost :
    (secondChoice.run (fun _ => false) tapAndLost).1.stepOutcomes.map
        (fun o => (o.recoveredBy, o.attempts.map (·.success))) =
      [(some .xmlRegeneration, [false, true]), (none, [false, false, false])] ∧
      Told secondChoice.chain tapAndLost.restore
        (secondChoice.run (fun _ => false) tapAndLost).1 :=
  ⟨by decide +kernel, run_told secondChoice signed_secondChoice (fun _ => false) tapAndLost⟩

end Engine

end Replay.Recovery
