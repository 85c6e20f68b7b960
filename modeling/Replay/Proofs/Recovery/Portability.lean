import Replay.Proofs.Exchange
import Replay.Proofs.Recovery.Accounting
import Replay.Proofs.Recovery.Origin
import Replay.Proofs.Wire.Recovery
set_option autoImplicit false

/-!
What a pass makes of a portable script is portable. The standard strategies propose snapshots within
the ranges of what is written if sources, target and clock do (`portable_standard`); then all that a
pass puts into its report is within them (`portable_run`). A pass changes neither parameters nor
metadata (`params_recoveredScript`), so it makes a script no deeper.
-/

namespace Replay

namespace Snapshot.Portable

variable {s : Snapshot}

theorem withContent (h : s.Portable) (content : String) : (s.withContent content).Portable where
  hash := by
    rw [Snapshot.withContent, ContentHash.ofContent]
    split
    · exact ContentHash.isLower_empty
    · exact ContentHash.isLower_of content
  capturedAt := h.capturedAt
  device := h.device
  page := h.page
  repair := h.repair

theorem repairedBy (h : s.Portable) (strategy : StrategyId) {now : Instant} (hnow : now.Proper) :
    (s.repairedBy strategy now).Portable :=
  ⟨h.hash, h.capturedAt, h.device, h.page, fun _ hr => Option.some.inj hr ▸ hnow⟩

theorem capture {device : Device} {page : Page} {now : Instant} (hdevice : device.Portable)
    (hpage : page.Portable) (hnow : now.Proper) (content : String) :
    (Snapshot.capture content device page now).Portable := by
  have hbare : ({ capturedAt := some now, device, page } : Snapshot).Portable :=
    ⟨ContentHash.isLower_empty, fun _ ht => Option.some.inj ht ▸ hnow, hdevice, hpage, nofun⟩
  exact hbare.withContent content

end Snapshot.Portable

namespace Recovery

def Source.Portable (source : Source) : Prop :=
  ∀ turn key found, source.lookup turn key = some found → found.Portable

structure Context.Portable (c : Context) : Prop where
  snapshot : ∀ s, c.step.snapshot = some s → s.Portable
  target : ∀ device, c.target = some device → device.Portable
  localSources : ∀ source ∈ c.localSources, source.Portable
  now : c.now.Proper

namespace Strategy

def Portable (s : Strategy) : Prop := ∀ c, Context.Portable c → (s.attempt c).result.Portable

theorem portable_xmlRepair : xmlRepair.Portable := by
  intro c hc s hs
  obtain ⟨old, hold, rfl⟩ := proposed_xmlRepair hs
  exact ((hc.snapshot old hold).withContent _).repairedBy _ hc.now

theorem portable_cacheLookup {shared : List Source} (h : ∀ source ∈ shared, source.Portable) :
    (cacheLookup shared).Portable := by
  intro c hc s hs
  obtain ⟨key, name, found, -, hfound, rfl⟩ := proposed_cacheLookup hs
  rw [findSnapshot_eq] at hfound
  obtain ⟨source, hmem, hlookup⟩ := Source.exists_of_firstAnswer hfound
  have hsource : source.Portable :=
    (List.mem_append.mp hmem).elim (hc.localSources source) (h source)
  have hlent := (hsource _ key found hlookup).repairedBy .cacheLookup hc.now
  exact ⟨hlent.hash, hlent.capturedAt, hlent.device, hlent.page, hlent.repair⟩

theorem portable_deviceAdaptation : deviceAdaptation.Portable := by
  intro c hc s hs
  obtain ⟨target, old, htarget, hold, rfl⟩ := proposed_deviceAdaptation hs
  have hadapted := ((hc.snapshot old hold).withContent (adaptedContent old target).1).repairedBy
    .deviceAdaptation hc.now
  -- The screen is that of the target.
  exact ⟨hadapted.hash, hadapted.capturedAt, hc.target target htarget, hadapted.page,
    hadapted.repair⟩

theorem portable_regeneration : regeneration.Portable := by
  intro c hc s hs
  obtain rfl := proposed_regeneration hs
  unfold generated
  extract_lets key app title screen page activityName device content
  have hdevice : device.Portable := nofun
  have hpage : page.Portable := (by decide : 2 < UInt64.size)
  have hnew := (Snapshot.Portable.capture hdevice hpage hc.now content).repairedBy
    .xmlRegeneration hc.now
  exact ⟨hnew.hash, hnew.capturedAt, hnew.device, hnew.page, hnew.repair⟩

theorem portable_manualGuidance : manualGuidance.Portable := by
  intro c _ s hs
  rw [recovered_manualGuidance] at hs
  cases hs

end Strategy

structure Chain.Portable (chain : Chain) : Prop where
  linked : ∀ t s, (t, s) ∈ chain.links → s.Portable
  fallback : chain.fallback.Portable

theorem Chain.portable_standard {sources : List Source}
    (h : ∀ source ∈ sources, source.Portable) (allowRegeneration : Bool) :
    (standard sources allowRegeneration).Portable where
  linked t s hlink := by
    obtain rfl | rfl | rfl | rfl := mem_standard hlink
    · exact Strategy.portable_xmlRepair
    · exact Strategy.portable_cacheLookup h
    · exact Strategy.portable_deviceAdaptation
    · exact Strategy.portable_regeneration
  fallback := Strategy.portable_manualGuidance

namespace Engine

structure Portable (e : Engine) : Prop where
  chain : e.chain.Portable
  target : ∀ device, e.target = some device → device.Portable
  now : e.now.Proper
  clock : ∀ m, (e.clock m).Proper

section Turns

variable {e : Engine} (he : e.Portable) {c : Context} (hc : c.Portable)
include he hc

theorem portable_proposed {s : Strategy}
    (h : s ∈ e.chain.plan c.failure c.issues ∨ s = e.chain.fallback) :
    (s.attempt c).result.Portable := by
  obtain hplan | rfl := h
  · obtain ⟨t, -, hlink⟩ := Chain.mem_plan hplan
    exact he.chain.linked t s hlink c hc
  · exact he.chain.fallback c hc

theorem portable_outcome (hindex : c.index < UInt64.size)
    (hissues : c.issues.length < UInt64.size) : (e.recoverStep c).outcome.Portable where
  index_lt := by rwa [index_recoverStep]
  attempts := by
    intro r hr s hs
    obtain ⟨strategy, hstrategy, hrecovered⟩ := e.recovered_of_mem_attempts c hr
    exact portable_proposed he hc hstrategy s (hrecovered ▸ hs)
  resolvedIssues_lt := by
    have hle := e.resolvedIssues_le c
    rw [foundIssues_recoverStep] at hle
    exact Nat.lt_of_le_of_lt hle hissues

end Turns

theorem params_recoverStep (e : Engine) (c : Context) :
    (e.recoverStep c).step.params = c.step.params := by
  obtain heq | ⟨strategy, s, -, heq⟩ := e.recoverStep_cases c <;> rw [heq]

theorem params_recoveredScript (e : Engine) (cancelled : Progress → Bool) (script : Script) :
    (e.run cancelled script).1.recoveredScript.steps.map (·.params) =
      script.restore.steps.map (·.params) := by
  refine List.ext_getElem? fun i => ?_
  simp only [List.getElem?_map]
  cases ha : (e.run cancelled script).1.recoveredScript.steps[i]? with
  | none =>
    rw [List.getElem?_eq_none_iff, length_recoveredScript] at ha
    rw [List.getElem?_eq_none_iff.mpr ha]
  | some after =>
    have hlt := (List.getElem?_eq_some_iff.mp ha).1
    rw [length_recoveredScript] at hlt
    have hi := List.getElem?_eq_getElem hlt
    rw [hi]
    obtain ⟨rfl, -⟩ | ⟨c, -, -, hstep, rfl, -⟩ := e.step_recoveredScript cancelled script hi ha
    · rfl
    · rw [Option.map_some, Option.map_some, params_recoverStep, hstep]

theorem metadata_recoveredScript (e : Engine) (cancelled : Progress → Bool) (script : Script) :
    (e.run cancelled script).1.recoveredScript.metadata = script.restore.metadata := by
  obtain ⟨done, -, -, hscript, -⟩ := e.exists_done cancelled script
  rw [hscript]
  rfl

section Pass

variable {e : Engine} (he : e.Portable) {depth : Nat} {script : Script}
  (hscript : script.Portable depth)
include he hscript

theorem portable_of_mem_failing {c : Context} (hc : c ∈ e.failing script) : c.Portable := by
  have hshows := (e.enumerates_failing script).shows c hc
  have hstep {i : Nat} {step : Step} (hi : script.restore.steps[i]? = some step) {s : Snapshot}
      (hs : step.snapshot = some s) : s.Portable :=
    (hscript.restore.steps step (List.mem_of_getElem? hi)).snapshot s hs
  refine ⟨fun s hs => hstep hshows.step_eq hs, hshows.target_eq ▸ he.target, ?_,
    hshows.now_eq ▸ he.clock _⟩
  rw [localSources_of_mem_failing hc]
  refine List.forall_mem_singleton.mpr fun turn key found hfound => ?_
  obtain ⟨j, step, hj, hs, -⟩ := mem_siblings (List.mem_of_find?_eq_some hfound)
  exact hstep hj hs

theorem portable_recoveredScript (cancelled : Progress → Bool) :
    (e.run cancelled script).1.recoveredScript.Portable depth := by
  refine hscript.restore.of_frame (e.params_recoveredScript cancelled script)
    (e.metadata_recoveredScript cancelled script) ?_ ?_
  · refine (e.forall_recovered cancelled script ?_ ?_).1
    · exact fun step hstep => (hscript.restore.steps step hstep).snapshot
    · exact fun c hc strategy hstrategy =>
        portable_proposed he (portable_of_mem_failing he hscript hc) hstrategy
  · rw [← e.restore_recoveredScript cancelled script, Script.pool_restore]
    nofun

theorem portable_recoveredScript_iff (cancelled : Progress → Bool) (hpool : script.pool = none)
    {other : Nat} :
    (e.run cancelled script).1.recoveredScript.Portable other ↔ script.Portable other := by
  refine ⟨fun h => ?_, fun h => portable_recoveredScript he h cancelled⟩
  have hparams := e.params_recoveredScript cancelled script
  have hmetadata := e.metadata_recoveredScript cancelled script
  rw [Script.restore_of_pool hpool] at hparams hmetadata
  exact h.of_frame hparams.symm hmetadata.symm
    (fun step hstep => (hscript.steps step hstep).snapshot) hscript.pool

end Pass

theorem length_failing_le (e : Engine) (script : Script) :
    (e.failing script).length ≤ script.steps.length := by
  have hlength : (script.restore.steps.zip (e.survey script.restore)).length =
      script.steps.length := by
    simp [survey, Script.steps_restore]
  exact hlength ▸ List.length_filterMap_le ..

theorem length_issues_of_mem_failing {e : Engine} {script : Script} {c : Context}
    (hc : c ∈ e.failing script) : c.issues.length ≤ 8 := by
  rw [((e.enumerates_failing script).shows c hc).issues_eq]
  split
  · exact Nat.zero_le 8
  · exact length_issues_le _ _ _ _

theorem index_lt_of_mem_failing {e : Engine} {script : Script} {c : Context}
    (hc : c ∈ e.failing script) : c.index < script.steps.length := by
  have hstep := ((e.enumerates_failing script).shows c hc).step_eq
  have hlt := (List.getElem?_eq_some_iff.mp hstep).1
  rwa [Script.steps_restore, List.length_map] at hlt

/-- The report of a pass is within the ranges of what is written, given that its issues can be
counted, of which a step has eight at most. -/
theorem portable_run {e : Engine} (he : e.Portable) {depth : Nat} {script : Script}
    (hscript : script.Portable (depth + 1)) (hsize : 8 * script.steps.length < UInt64.size)
    (cancelled : Progress → Bool) : (e.run cancelled script).1.Portable depth := by
  have hrecovered := portable_recoveredScript he hscript cancelled
  obtain ⟨k, -, hrun⟩ := e.exists_run cancelled script
  have hmem : ∀ c ∈ (e.failing script).take k, c ∈ e.failing script := fun _ => List.mem_of_mem_take
  have hlength : ((e.failing script).take k).length ≤ script.steps.length :=
    Nat.le_trans (List.length_take_le' k _) (e.length_failing_le script)
  generalize (e.failing script).take k = cs at hrun hmem hlength
  rw [hrun] at hrecovered ⊢
  have hfound : total ((cs.map e.recoverStep).map (·.outcome.foundIssues.length)) ≤
      8 * script.steps.length := by
    have hissues : ∀ r ∈ cs.map e.recoverStep, r.outcome.foundIssues.length ≤ 8 :=
      List.forall_mem_map.mpr fun c hc => by
        rw [foundIssues_recoverStep]
        exact length_issues_of_mem_failing (hmem c hc)
    have htotal := total_map_le_mul hissues
    rw [List.length_map] at htotal
    omega
  have hresolved : total ((cs.map e.recoverStep).map (·.outcome.resolvedIssues)) ≤
      total ((cs.map e.recoverStep).map (·.outcome.foundIssues.length)) :=
    total_map_le (List.forall_mem_map.mpr fun c _ => e.resolvedIssues_le c)
  exact {
    foundIssues_lt := Nat.lt_of_le_of_lt hfound hsize
    resolvedIssues_lt := Nat.lt_of_le_of_lt (Nat.le_trans hresolved hfound) hsize
    confidenceScore_lt := Nat.lt_of_le_of_lt (confidenceScore_le hresolved _) (by decide)
    stepOutcomes := by
      simp only [summarize, List.map_map, List.forall_mem_map, Function.comp_apply]
      intro c hc
      have hindex := index_lt_of_mem_failing (hmem c hc)
      have hissues := length_issues_of_mem_failing (hmem c hc)
      exact portable_outcome he (portable_of_mem_failing he hscript (hmem c hc)) (by omega)
        (by omega)
    recoveredScript := hrecovered
    evaluatedAt := he.now }

end Engine

end Recovery

end Replay
