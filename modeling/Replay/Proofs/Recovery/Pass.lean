import Mathlib.Data.List.Nodup
import Replay.Proofs.Recovery.Turn
set_option autoImplicit false

/-!
The shape of a pass. The report is the summary of the turns made, which are those of the first
failing steps, all of them unless the pass was cancelled (`run_of_turns`). Turns are made in the
order of the steps and each writes to a place of its own (`getElem?_replaceSteps_of_mem`), so that a
step of the recovered script is the old one or what came out of its turn (`step_recoveredScript`).
-/

namespace Replay.Recovery.Engine

def surveyed (e : Engine) (c : Context) : StepReport :=
  validateStep e.limits (e.clock (.survey c.index)) c.index c.step

/-- A context shows a failing step of a script as the survey found it. -/
structure Shows (e : Engine) (script : Script) (c : Context) : Prop where
  step_eq : script.steps[c.index]? = some c.step
  failure_eq : e.classify c.step (e.surveyed c) = some c.failure
  issues_eq : c.issues = if (e.surveyed c).isValid then [] else (e.surveyed c).issues
  target_eq : c.target = e.target
  now_eq : c.now = e.clock (.attempt c.index)

/-- Contexts that show failing steps of a script, in the order of the steps. -/
structure Enumerates (e : Engine) (script : Script) (cs : List Context) : Prop where
  ordered : cs.Pairwise (·.index < ·.index)
  shows : ∀ c ∈ cs, e.Shows script c

theorem zip_survey (e : Engine) (script : Script) :
    script.steps.zip (e.survey script) = script.steps.mapIdx fun i step =>
      (step, validateStep e.limits (e.clock (.survey i)) i step) := by
  rw [survey]
  refine List.ext_getElem (by simp) fun i _ _ => ?_
  simp

theorem mem_contexts {e : Engine} {script : Script} {c : Context} :
    c ∈ e.contexts script (e.survey script) ↔ ∃ i step, script.steps[i]? = some step ∧
      e.context? [Source.ofSiblings (siblings script (e.survey script))] step
        (validateStep e.limits (e.clock (.survey i)) i step) = some c := by
  simp only [contexts, zip_survey, List.mem_filterMap, List.mem_mapIdx]
  constructor
  · rintro ⟨_, ⟨i, hi, rfl⟩, hc⟩
    exact ⟨i, _, List.getElem?_eq_getElem hi, hc⟩
  · rintro ⟨i, step, hi, hc⟩
    obtain ⟨hlt, rfl⟩ := List.getElem?_eq_some_iff.mp hi
    exact ⟨_, ⟨i, hlt, rfl⟩, hc⟩

theorem shows_of_mem_contexts {e : Engine} {script : Script} {c : Context}
    (h : c ∈ e.contexts script (e.survey script)) : e.Shows script c := by
  obtain ⟨i, step, hi, hc⟩ := mem_contexts.mp h
  obtain ⟨failure, hfailure, rfl⟩ := Option.map_eq_some_iff.mp hc
  exact ⟨hi, hfailure, rfl, rfl, rfl⟩

theorem exists_context {e : Engine} {script : Script} {i : Nat} {step : Step}
    (hi : script.steps[i]? = some step) {failure : FailureKind}
    (hf : e.classify step (validateStep e.limits (e.clock (.survey i)) i step) = some failure) :
    ∃ c ∈ e.contexts script (e.survey script), c.index = i := by
  have hc (sources : List Source) : ∃ c, e.context? sources step
      (validateStep e.limits (e.clock (.survey i)) i step) = some c ∧ c.index = i := by
    simp only [context?, hf, Option.map_some]
    exact ⟨_, rfl, rfl⟩
  obtain ⟨c, hc, rfl⟩ := hc [Source.ofSiblings (siblings script (e.survey script))]
  exact ⟨c, mem_contexts.mpr ⟨_, step, hi, hc⟩, rfl⟩

theorem pairwise_contexts (e : Engine) (script : Script) :
    (e.contexts script (e.survey script)).Pairwise (·.index < ·.index) := by
  rw [contexts, zip_survey, List.pairwise_filterMap]
  refine List.pairwise_iff_getElem.mpr fun i j hi hj hij c hc c' hc' => ?_
  simp only [List.getElem_mapIdx, context?, Option.map_eq_some_iff] at hc hc'
  obtain ⟨failure, -, rfl⟩ := hc
  obtain ⟨failure', -, rfl⟩ := hc'
  exact hij

def failing (e : Engine) (script : Script) : List Context :=
  e.contexts script.restore (e.survey script.restore)

theorem enumerates_failing (e : Engine) (script : Script) :
    e.Enumerates script.restore (e.failing script) :=
  ⟨e.pairwise_contexts script.restore, fun _ => shows_of_mem_contexts⟩

namespace Enumerates

variable {e : Engine} {script : Script} {cs : List Context}

theorem take (h : e.Enumerates script cs) (k : Nat) : e.Enumerates script (cs.take k) :=
  ⟨h.ordered.sublist (List.take_sublist k cs), fun c hc => h.shows c (List.mem_of_mem_take hc)⟩

theorem eq_of_index_eq (h : e.Enumerates script cs) {c c' : Context} (hc : c ∈ cs) (hc' : c' ∈ cs)
    (hindex : c.index = c'.index) : c = c' := by
  have hnodup : (cs.map (·.index)).Nodup :=
    List.pairwise_map.mpr (h.ordered.imp fun hlt => Nat.ne_of_lt hlt)
  exact List.inj_on_of_nodup_map hnodup hc hc' hindex

end Enumerates

def progressAfter (e : Engine) (p : Progress) (cs : List Context) (k : Nat) : Progress :=
  ⟨p.steps + k, ((cs.take k).flatMap fun c => (e.recoverStep c).queries).reverse ++ p.queries⟩

theorem progressAfter_succ (e : Engine) (p : Progress) (c : Context) (cs : List Context) (k : Nat) :
    e.progressAfter p (c :: cs) (k + 1) = e.progressAfter
      ⟨p.steps + 1, (e.recoverStep c).queries.reverse ++ p.queries⟩ cs k := by
  simp only [progressAfter, List.take_succ_cons, List.flatMap_cons, List.reverse_append,
    List.append_assoc, Progress.mk.injEq, and_true]
  omega

/-- The pass makes `k` turns: it goes on before each of them, and stops before the next one if
there is one. -/
structure Turns (e : Engine) (cancelled : Progress → Bool) (p : Progress) (cs : List Context)
    (k : Nat) : Prop where
  le_length : k ≤ cs.length
  goes_on : ∀ j, j < k → cancelled (e.progressAfter p cs j) = false
  stops : k < cs.length → cancelled (e.progressAfter p cs k)

theorem Turns.unique {e : Engine} {cancelled : Progress → Bool} {p : Progress} {cs : List Context}
    {k k' : Nat} (h : e.Turns cancelled p cs k) (h' : e.Turns cancelled p cs k') : k = k' := by
  have hle {k k' : Nat} (h : e.Turns cancelled p cs k) (h' : e.Turns cancelled p cs k') :
      k' ≤ k := by
    refine Nat.le_of_not_lt fun hlt => ?_
    have hstop := h.stops (Nat.lt_of_lt_of_le hlt h'.le_length)
    rw [h'.goes_on k hlt] at hstop
    cases hstop
  exact Nat.le_antisymm (hle h' h) (hle h h')

theorem turns_all (e : Engine) (p : Progress) (cs : List Context) :
    e.Turns (fun _ => false) p cs cs.length :=
  ⟨Nat.le_refl _, fun _ _ => rfl, fun h => absurd h (Nat.lt_irrefl _)⟩

theorem exists_turns (e : Engine) (cancelled : Progress → Bool) (p : Progress)
    (cs : List Context) : ∃ k, e.Turns cancelled p cs k ∧ e.recoverSteps cancelled p cs =
      ((cs.take k).map e.recoverStep, decide (k < cs.length)) := by
  -- How many turns are made is found on the way; the progress differs from step to step.
  induction cs generalizing p with
  | nil => exact ⟨0, ⟨Nat.le_refl _, nofun, fun h => absurd h (Nat.lt_irrefl _)⟩, rfl⟩
  | cons c rest ih =>
    rw [recoverSteps]
    split
    · next hstop => exact ⟨0, ⟨Nat.zero_le _, nofun, fun _ => hstop⟩, rfl⟩
    · next hgo =>
      obtain ⟨k, hk, heq⟩ := ih ⟨p.steps + 1, (e.recoverStep c).queries.reverse ++ p.queries⟩
      refine ⟨k + 1, ⟨Nat.succ_le_succ hk.le_length, ?_, ?_⟩, ?_⟩
      · intro j hj
        cases j with
        | zero => exact Bool.eq_false_iff.mpr hgo
        | succ j =>
          rw [progressAfter_succ]
          exact hk.goes_on j (Nat.lt_of_succ_lt_succ hj)
      · intro hlt
        rw [progressAfter_succ]
        exact hk.stops (Nat.lt_of_succ_lt_succ hlt)
      · simp only [heq, List.take_succ_cons, List.map_cons, List.length_cons,
          Nat.add_lt_add_iff_right]

theorem summarize_nil (e : Engine) (script : Script) :
    e.summarize script [] false = .clean script e.now := rfl

/-- The report is the summary of the turns that were made, and the queries are theirs. -/
theorem run_of_turns {e : Engine} {cancelled : Progress → Bool} {script : Script} {k : Nat}
    (h : e.Turns cancelled ⟨0, []⟩ (e.failing script) k) :
    e.run cancelled script =
      (e.summarize script.restore (((e.failing script).take k).map e.recoverStep)
        (decide (k < (e.failing script).length)),
      (((e.failing script).take k).map e.recoverStep).flatMap (·.queries)) := by
  obtain ⟨k', hk', heq⟩ := e.exists_turns cancelled ⟨0, []⟩ (e.failing script)
  obtain rfl := h.unique hk'
  have hrun : e.run cancelled script =
      if (e.failing script).isEmpty then (.clean script.restore e.now, [])
      else
        let turns := e.recoverSteps cancelled ⟨0, []⟩ (e.failing script)
        (e.summarize script.restore turns.1 turns.2, turns.1.flatMap (·.queries)) := rfl
  rw [hrun, heq]
  cases hfailing : e.failing script with
  | nil => simp [summarize_nil]
  | cons c rest => rfl

theorem exists_run (e : Engine) (cancelled : Progress → Bool) (script : Script) :
    ∃ k, k ≤ (e.failing script).length ∧ (e.run cancelled script).1 =
      e.summarize script.restore (((e.failing script).take k).map e.recoverStep)
        (decide (k < (e.failing script).length)) := by
  obtain ⟨k, hk, -⟩ := e.exists_turns cancelled ⟨0, []⟩ (e.failing script)
  exact ⟨k, hk.le_length, by rw [run_of_turns hk]⟩

theorem exists_done (e : Engine) (cancelled : Progress → Bool) (script : Script) :
    ∃ done : List Context,
      (∀ c ∈ done, e.Shows script.restore c) ∧
      ((e.run cancelled script).1.cancelled = false →
        done = e.contexts script.restore (e.survey script.restore)) ∧
      (e.run cancelled script).1.recoveredScript =
        replaceSteps script.restore (done.map e.recoverStep) ∧
      (e.run cancelled script).1.remainingIssues =
        (done.map e.recoverStep).flatMap e.unresolved := by
  obtain ⟨k, -, hrun⟩ := e.exists_run cancelled script
  refine ⟨(e.failing script).take k, ((e.enumerates_failing script).take k).shows, ?_⟩
  simp only [hrun, summarize]
  refine ⟨fun hall => ?_, trivial, trivial⟩
  exact List.take_of_length_le (Nat.le_of_not_lt (of_decide_eq_false hall))

theorem getElem?_foldl_set {α β : Type} (index : β → Nat) (value : β → α) (done : List β)
    (old : List α) (i : Nat) :
    let new := done.foldl (fun l r => l.set (index r) (value r)) old
    (new[i]? = old[i]? ∧ ∀ r ∈ done, index r ≠ i) ∨
      ∃ r ∈ done, index r = i ∧ new[i]? = old[i]?.map fun _ => value r := by
  -- Of several entries for one place the last one stays, so the rest is looked at first.
  induction done generalizing old with
  | nil => exact Or.inl ⟨rfl, nofun⟩
  | cons r rest ih =>
    obtain ⟨hsame, hother⟩ | ⟨r', hr', hi, hnew⟩ := ih (old.set (index r) (value r))
    · by_cases hi : index r = i
      · refine Or.inr ⟨r, List.mem_cons_self, hi, ?_⟩
        rw [List.foldl_cons, hsame, ← hi, List.getElem?_set_self']
        rfl
      · refine Or.inl ⟨?_, ?_⟩
        · simp only [List.foldl_cons, hsame, List.getElem?_set_ne hi]
        · simpa [hi] using hother
    · refine Or.inr ⟨r', List.mem_cons_of_mem r hr', hi, ?_⟩
      rw [List.foldl_cons, hnew, List.getElem?_set]
      split
      · next heq =>
        subst heq
        split
        · next hlt => simp [hlt]
        · next hlt => simp [hlt]
      · rfl

theorem step_replaceSteps {script : Script} {done : List Recovered} {i : Nat} {step after : Step}
    (hi : script.steps[i]? = some step) (ha : (replaceSteps script done).steps[i]? = some after) :
    (after = step ∧ ∀ r ∈ done, r.outcome.index ≠ i) ∨
      ∃ r ∈ done, r.outcome.index = i ∧ after = r.step := by
  obtain ⟨hsame, hother⟩ | ⟨r, hr, hri, hnew⟩ :=
    getElem?_foldl_set (·.outcome.index) (·.step) done script.steps i
  · rw [replaceSteps, hsame, hi] at ha
    exact Or.inl ⟨(Option.some.inj ha).symm, hother⟩
  · rw [replaceSteps, hnew, hi] at ha
    exact Or.inr ⟨r, hr, hri, (Option.some.inj ha).symm⟩

theorem length_replaceSteps (script : Script) (done : List Recovered) :
    (replaceSteps script done).steps.length = script.steps.length := by
  have hlength (steps : List Step) :
      (done.foldl (fun l r => l.set r.outcome.index r.step) steps).length = steps.length := by
    induction done generalizing steps with
    | nil => rfl
    | cons r rest ih => rw [List.foldl_cons, ih, List.length_set]
  exact hlength script.steps

theorem mem_replaceSteps {script : Script} {done : List Recovered} {after : Step}
    (h : after ∈ (replaceSteps script done).steps) :
    after ∈ script.steps ∨ ∃ r ∈ done, after = r.step := by
  obtain ⟨i, ha⟩ := List.mem_iff_getElem?.mp h
  have hlt : i < script.steps.length :=
    length_replaceSteps script done ▸ (List.getElem?_eq_some_iff.mp ha).1
  obtain ⟨rfl, -⟩ | ⟨r, hr, -, rfl⟩ := step_replaceSteps (List.getElem?_eq_getElem hlt) ha
  · exact Or.inl (List.getElem_mem hlt)
  · exact Or.inr ⟨r, hr, rfl⟩

section Places

variable {e : Engine} {script : Script} {cs : List Context}

theorem getElem?_replaceSteps_of_mem (hcs : e.Enumerates script cs) {c : Context} (hc : c ∈ cs) :
    (replaceSteps script (cs.map e.recoverStep)).steps[c.index]? = some (e.recoverStep c).step := by
  obtain ⟨-, hother⟩ | ⟨r, hr, hindex, hnew⟩ := getElem?_foldl_set (·.outcome.index) (·.step)
    (cs.map e.recoverStep) script.steps c.index
  · exact absurd (e.index_recoverStep c) (hother _ (List.mem_map_of_mem hc))
  · obtain ⟨c', hc', rfl⟩ := List.mem_map.mp hr
    obtain rfl := hcs.eq_of_index_eq hc' hc (by rw [← hindex, index_recoverStep])
    rw [replaceSteps, hnew, (hcs.shows c' hc).step_eq, Option.map_some]

theorem getElem?_replaceSteps_of_notMem {i : Nat} (h : ∀ c ∈ cs, c.index ≠ i) :
    (replaceSteps script (cs.map e.recoverStep)).steps[i]? = script.steps[i]? := by
  obtain ⟨hsame, -⟩ | ⟨r, hr, hindex, -⟩ := getElem?_foldl_set (·.outcome.index) (·.step)
    (cs.map e.recoverStep) script.steps i
  · exact hsame
  · obtain ⟨c, hc, rfl⟩ := List.mem_map.mp hr
    exact absurd (by rw [← hindex, index_recoverStep]) (h c hc)

end Places

section Run

variable (e : Engine) (cancelled : Progress → Bool) (script : Script)

theorem restore_recoveredScript :
    (e.run cancelled script).1.recoveredScript.restore =
      (e.run cancelled script).1.recoveredScript := by
  obtain ⟨done, -, -, hscript, -⟩ := e.exists_done cancelled script
  exact Script.restore_of_pool (hscript ▸ script.pool_restore)

theorem length_recoveredScript :
    (e.run cancelled script).1.recoveredScript.steps.length = script.restore.steps.length := by
  obtain ⟨done, -, -, hscript, -⟩ := e.exists_done cancelled script
  rw [hscript, length_replaceSteps]

theorem exists_turn {o : StepOutcome} (ho : o ∈ (e.run cancelled script).1.stepOutcomes) :
    ∃ c ∈ e.failing script, o = (e.recoverStep c).outcome ∧
      (e.run cancelled script).1.recoveredScript.steps[c.index]? = some (e.recoverStep c).step := by
  obtain ⟨k, -, hrun⟩ := e.exists_run cancelled script
  have hcs := (e.enumerates_failing script).take k
  simp only [hrun, summarize, List.map_map, List.mem_map, Function.comp_apply] at ho ⊢
  obtain ⟨c, hc, rfl⟩ := ho
  exact ⟨c, List.mem_of_mem_take hc, rfl, getElem?_replaceSteps_of_mem hcs hc⟩

/-- A step of the recovered script is the old one, which did not fail unless the pass was cancelled
before it, or what came out of its turn; what is unresolved then is in the report. -/
theorem step_recoveredScript {i : Nat} {step after : Step}
    (hi : script.restore.steps[i]? = some step)
    (ha : (e.run cancelled script).1.recoveredScript.steps[i]? = some after) :
    (after = step ∧ ((e.run cancelled script).1.cancelled = false →
      e.classify step (validateStep e.limits (e.clock (.survey i)) i step) = none)) ∨
    ∃ c, e.Shows script.restore c ∧ c.index = i ∧ c.step = step ∧
      after = (e.recoverStep c).step ∧
      ∀ text ∈ e.unresolved (e.recoverStep c),
        text ∈ (e.run cancelled script).1.remainingIssues := by
  obtain ⟨done, hshows, hall, hscript, hremaining⟩ := e.exists_done cancelled script
  rw [hscript] at ha
  obtain ⟨rfl, hother⟩ | ⟨r, hr, hri, rfl⟩ := step_replaceSteps hi ha
  · refine Or.inl ⟨rfl, fun hnot => ?_⟩
    refine Option.eq_none_iff_forall_ne_some.mpr fun failure hfailure => ?_
    obtain ⟨c, hc, hci⟩ := exists_context hi hfailure
    refine hother (e.recoverStep c) (List.mem_map_of_mem ?_) (by simpa using hci)
    exact hall hnot ▸ hc
  · obtain ⟨c, hc, rfl⟩ := List.mem_map.mp hr
    rw [index_recoverStep] at hri
    have hstep : c.step = step := by
      have hci := (hshows c hc).step_eq
      rw [hri, hi] at hci
      exact (Option.some.inj hci).symm
    refine Or.inr ⟨c, hshows c hc, hri, hstep, rfl, fun text htext => ?_⟩
    rw [hremaining]
    exact List.mem_flatMap.mpr ⟨_, hr, htext⟩

/-- What holds of the snapshots of a script and of all that strategies propose for its failing steps
holds of every snapshot that the report shows. -/
theorem forall_recovered {P : Snapshot → Prop}
    (hscript : ∀ step ∈ script.restore.steps, ∀ s, step.snapshot = some s → P s)
    (hproposed : ∀ c ∈ e.failing script, ∀ strategy,
      strategy ∈ e.chain.plan c.failure c.issues ∨ strategy = e.chain.fallback →
      ∀ s, (strategy.attempt c).result.recovered = some s → P s) :
    (∀ after ∈ (e.run cancelled script).1.recoveredScript.steps,
      ∀ s, after.snapshot = some s → P s) ∧
    ∀ o ∈ (e.run cancelled script).1.stepOutcomes, ∀ r ∈ o.attempts,
      ∀ s, r.recovered = some s → P s := by
  obtain ⟨k, -, hrun⟩ := e.exists_run cancelled script
  have hcs := (e.enumerates_failing script).take k
  have hmem : ∀ c ∈ (e.failing script).take k, c ∈ e.failing script := fun _ => List.mem_of_mem_take
  generalize (e.failing script).take k = cs at hrun hcs hmem
  rw [hrun, summarize]
  constructor
  · intro after hafter s hs
    obtain hold | ⟨r, hr, rfl⟩ := mem_replaceSteps hafter
    · exact hscript after hold s hs
    · obtain ⟨c, hc, rfl⟩ := List.mem_map.mp hr
      obtain heq | ⟨strategy, found, haccepted, heq⟩ := e.recoverStep_cases c
      · exact hscript c.step (List.mem_of_getElem? (hcs.shows c hc).step_eq) s (heq ▸ hs)
      · rw [heq] at hs
        obtain rfl := Option.some.inj hs
        exact hproposed c (hmem c hc) strategy (Or.inl haccepted.planned) found haccepted.proposed
  · simp only [List.map_map, List.forall_mem_map, Function.comp_apply]
    intro c hc r hr s hs
    obtain ⟨strategy, hstrategy, hrecovered⟩ := e.recovered_of_mem_attempts c hr
    exact hproposed c (hmem c hc) strategy hstrategy s (hrecovered ▸ hs)

end Run

end Replay.Recovery.Engine
