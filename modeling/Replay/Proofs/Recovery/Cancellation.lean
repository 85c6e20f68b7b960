import Replay.Proofs.Recovery.Accounting
set_option autoImplicit false

/-!
A cancelled pass is the whole pass cut short. A turn reads and writes its own step only, so that a
pass which edits the script as it goes makes the same turns (`recoverInPlace_eq`), and what is made
of a step is up to its own turn (`entry_recover`). Hence the outcomes of a cancelled pass are the
first ones of the whole pass, and its totals count them only (`run_cut_short`).
-/

namespace Replay.Recovery

def Report.entry (r : Report) (i : Nat) : Option StepOutcome × Option Step :=
  (r.stepOutcomes.find? (·.index == i), r.recoveredScript.steps[i]?)

namespace Engine

/-- Recover failing steps in place: a turn looks at its step as the turns before left it, and the
next turn gets the script with the step that came out. -/
def recoverInPlace (e : Engine) (cancelled : Progress → Bool) (p : Progress) (working : Script) :
    List Context → Script × List StepOutcome × Bool
  | [] => (working, [], false)
  | c :: rest =>
    if cancelled p then (working, [], true)
    else
      let done := e.recoverStep { c with step := working.steps[c.index]?.getD default }
      let (final, later, stopped) := recoverInPlace e cancelled
        ⟨p.steps + 1, done.queries.reverse ++ p.queries⟩ (replaceSteps working [done]) rest
      (final, done.outcome :: later, stopped)

theorem recoverInPlace_eq {e : Engine} (cancelled : Progress → Bool) (p : Progress)
    {working : Script} {cs : List Context} (hordered : cs.Pairwise (·.index < ·.index))
    (hsteps : ∀ c ∈ cs, working.steps[c.index]? = some c.step) :
    e.recoverInPlace cancelled p working cs =
      (replaceSteps working (e.recoverSteps cancelled p cs).1,
        (e.recoverSteps cancelled p cs).1.map (·.outcome), (e.recoverSteps cancelled p cs).2) := by
  induction cs generalizing p working with
  | nil => rfl
  | cons c rest ih =>
    obtain ⟨hlater, hrest⟩ := List.pairwise_cons.mp hordered
    rw [recoverInPlace, recoverSteps]
    split
    · rfl
    · -- The turn wrote to the place of `c`, and the later steps stand elsewhere.
      have hkept : ∀ c' ∈ rest,
          (replaceSteps working [e.recoverStep c]).steps[c'.index]? = some c'.step := by
        intro c' hc'
        have helsewhere : ∀ x ∈ [c], x.index ≠ c'.index :=
          List.forall_mem_singleton.mpr (Nat.ne_of_lt (hlater c' hc'))
        rw [← hsteps c' (List.mem_cons_of_mem c hc')]
        exact getElem?_replaceSteps_of_notMem helsewhere
      simp only [hsteps c List.mem_cons_self, Option.getD_some, ih _ hrest hkept]
      rfl

theorem entry_summarize {e : Engine} {script : Script} {cs : List Context}
    (hcs : e.Enumerates script cs) (cancelled : Bool) {c : Context} (hc : c ∈ cs) :
    (e.summarize script (cs.map e.recoverStep) cancelled).entry c.index =
      (some (e.recoverStep c).outcome, some (e.recoverStep c).step) := by
  have hfind : cs.find? (·.index == c.index) = some c := by
    have hsome : (cs.find? (·.index == c.index)).isSome :=
      List.find?_isSome.mpr ⟨c, hc, by simp⟩
    obtain ⟨c', hc'⟩ := Option.isSome_iff_exists.mp hsome
    have hindex : c'.index = c.index := by simpa using List.find?_some hc'
    rw [hc', hcs.eq_of_index_eq (List.mem_of_find?_eq_some hc') hc hindex]
  simp only [Report.entry, summarize, List.find?_map, Function.comp_def, index_recoverStep, hfind,
    getElem?_replaceSteps_of_mem hcs hc, Option.map_some]

theorem recover_eq (e : Engine) (script : Script) : e.recover script =
    e.summarize script.restore ((e.failing script).map e.recoverStep) false := by
  rw [recover, run_of_turns (e.turns_all ⟨0, []⟩ (e.failing script))]
  simp only [List.take_length, Nat.lt_irrefl, decide_false]

theorem entry_recover (e : Engine) {script : Script} {c : Context} (hc : c ∈ e.failing script) :
    (e.recover script).entry c.index =
      (some (e.recoverStep c).outcome, some (e.recoverStep c).step) := by
  rw [recover_eq]
  exact entry_summarize (e.enumerates_failing script) false hc

/-- The report of a pass that was cut short after `k` outcomes. -/
structure CutShort (e : Engine) (input : Script) (k : Nat) (whole cut : Report) : Prop where
  cancelled : cut.cancelled
  length_eq : cut.stepOutcomes.length = k
  outcomes_eq : cut.stepOutcomes = whole.stepOutcomes.take k
  recovered : ∀ o ∈ cut.stepOutcomes,
    cut.recoveredScript.steps[o.index]? = whole.recoveredScript.steps[o.index]?
  others : ∀ i, (∀ o ∈ cut.stepOutcomes, o.index ≠ i) →
    cut.recoveredScript.steps[i]? = input.steps[i]?
  frame : { cut.recoveredScript with steps := input.steps } = input
  counts : e.Counts cut

/-- If the pass is first told to stop before the failing step after `k` others, its report is that
of the whole pass cut short. That a pass edits the script as it goes makes no difference, nor does
it to a step what other strategies would make of the other steps. -/
theorem run_cut_short {e : Engine} {cancelled : Progress → Bool} {script : Script} {k : Nat}
    (hturns : e.Turns cancelled ⟨0, []⟩ (e.failing script) k)
    (hk : k < (e.failing script).length) :
    CutShort e script.restore k (e.recover script) (e.run cancelled script).1 ∧
    e.recoverInPlace cancelled ⟨0, []⟩ script.restore (e.failing script) =
      ((e.run cancelled script).1.recoveredScript, (e.run cancelled script).1.stepOutcomes, true) ∧
    ∀ (chain : Chain), ∀ c ∈ e.failing script,
      { e with chain }.recoverStep c = e.recoverStep c →
      ({ e with chain }.recover script).entry c.index = (e.recover script).entry c.index := by
  have hall := e.enumerates_failing script
  have hfirst := hall.take k
  have hrun := congrArg Prod.fst (run_of_turns hturns)
  rw [decide_eq_true hk] at hrun
  refine ⟨?_, ?_, fun chain c hc hturn => ?_⟩
  · rw [hrun, recover_eq]
    constructor
    case cancelled => rfl
    case length_eq => simp [summarize, Nat.min_eq_left hturns.le_length]
    case outcomes_eq => simp only [summarize, List.map_take]
    case recovered =>
      simp only [summarize, List.map_map, List.forall_mem_map, Function.comp_apply,
        index_recoverStep]
      intro c hc
      rw [getElem?_replaceSteps_of_mem hfirst hc,
        getElem?_replaceSteps_of_mem hall (List.mem_of_mem_take hc)]
    case others =>
      simp only [summarize, List.map_map, List.forall_mem_map, Function.comp_apply,
        index_recoverStep]
      exact fun i hi => getElem?_replaceSteps_of_notMem hi
    case frame => rfl
    case counts => exact counts_summarize hfirst true
  · obtain ⟨k', hk', hsteps⟩ := e.exists_turns cancelled ⟨0, []⟩ (e.failing script)
    obtain rfl := hturns.unique hk'
    rw [recoverInPlace_eq cancelled _ hall.ordered fun c hc => (hall.shows c hc).step_eq, hsteps,
      hrun, decide_eq_true hk]
    rfl
  · have hfailing : c ∈ { e with chain }.failing script := hc
    rw [entry_recover _ hfailing, entry_recover e hc, hturn]

theorem run_cut_short_tornAndBare :
    (halving.recover tornAndBare).stepOutcomes.map (·.recoveredBy) = [some .xmlRepair, none] ∧
      (halving.run (fun p => p.steps == 1) tornAndBare).1.stepOutcomes.map (·.recoveredBy) =
        [some .xmlRepair] ∧
      CutShort halving tornAndBare.restore 1 (halving.recover tornAndBare)
        (halving.run (fun p => p.steps == 1) tornAndBare).1 := by
  have hlength : (halving.failing tornAndBare).length = 2 := by decide +kernel
  have hturns : halving.Turns (fun p => p.steps == 1) ⟨0, []⟩ (halving.failing tornAndBare) 1 := by
    refine ⟨by omega, fun j hj => ?_, fun _ => rfl⟩
    obtain rfl : j = 0 := by omega
    rfl
  have hcut := (run_cut_short hturns (by omega)).1
  exact ⟨by decide +kernel, by decide +kernel, hcut⟩

end Engine

end Replay.Recovery
