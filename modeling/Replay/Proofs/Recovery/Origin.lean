import Replay.Proofs.Recovery.Validity
set_option autoImplicit false

namespace Replay.Recovery

theorem mem_siblings {e : Engine} {script : Script} {s : Snapshot}
    (h : s ∈ siblings script (e.survey script)) : ∃ j step, script.steps[j]? = some step ∧
      step.snapshot = some s ∧
      (validateSnapshot e.limits (e.clock (.survey j)) s).isValid := by
  obtain ⟨report, hreport, hs⟩ := List.mem_filterMap.mp h
  obtain ⟨hmem, hvalid⟩ := List.mem_filter.mp hreport
  obtain ⟨j, hj, rfl⟩ := List.mem_mapIdx.mp hmem
  have hfound : script.steps[j]?.bind (·.snapshot) = some s := (Option.filter_eq_some_iff.mp hs).1
  rw [List.getElem?_eq_getElem hj, Option.bind_some] at hfound
  rw [validateStep, hfound, Option.map_some, Option.any_some] at hvalid
  exact ⟨j, _, List.getElem?_eq_getElem hj, hfound, hvalid⟩

theorem findSnapshot_cases {shared : List Source} {c : Context} {snapshots : List Snapshot}
    (hlocal : c.localSources = [.ofSiblings snapshots]) {key : LookupKey} {name : String}
    {found : Snapshot} (h : (Strategy.findSnapshot shared c key).1 = some (name, found)) :
    (found ∈ snapshots ∧ key.fits found) ∨
      ∃ source ∈ shared, source.lookup c.index key = some found := by
  rw [Strategy.findSnapshot_eq, hlocal] at h
  obtain ⟨source, hsource, hlookup⟩ := Source.exists_of_firstAnswer h
  obtain hmem | hmem := List.mem_append.mp hsource
  · obtain rfl := List.mem_singleton.mp hmem
    exact Or.inl ⟨List.mem_of_find?_eq_some hlookup, List.find?_some hlookup⟩
  · exact Or.inr ⟨source, hmem, hlookup⟩

inductive Origin where
  | own (old : Snapshot)
  | sibling (index : Nat) (other : Snapshot)
  | answer (source : Source) (found : Snapshot)
  | generated

namespace Origin

/-- The content is not that of a capture. -/
@[simp] def isSynthetic : Origin → Bool
  | own old => old.synthetic
  | sibling _ other => other.synthetic
  | answer _ found => found.synthetic
  | generated => true

/-- The content is that of a snapshot of something else than the step. -/
@[simp] def isBorrowed : Origin → Bool
  | sibling _ _ | answer _ _ => true
  | own _ | generated => false

end Origin

/-- How a strategy made a snapshot for the step at an index of a script from its origin. -/
inductive Supplied (sources : List Source) (target : Option Device) (input : Script) (index : Nat)
    (step : Step) (s : Snapshot) : StrategyId → Origin → Prop
  | mended {old : Snapshot} (had : step.snapshot = some old)
      (content_eq : s.content = (Xml.repair old.content).content) :
      Supplied sources target input index step s .xmlRepair (.own old)
  | adapted {old : Snapshot} {device : Device} (had : step.snapshot = some old)
      (for_device : target = some device)
      (content_eq : s.content = (Strategy.adaptedContent old device).1) :
      Supplied sources target input index step s .deviceAdaptation (.own old)
  | lent {key : LookupKey} {j : Nat} {other : Snapshot} (asked : LookupKey.ofStep step = some key)
      (elsewhere : j ≠ index) (there : input.steps[j]?.bind (·.snapshot) = some other)
      (fits : key.fits other) (content_eq : s.content = other.content) :
      Supplied sources target input index step s .cacheLookup (.sibling j other)
  | answered {key : LookupKey} {source : Source} {found : Snapshot}
      (asked : LookupKey.ofStep step = some key) (listed : source ∈ sources)
      (gave : source.lookup index key = some found) (content_eq : s.content = found.content) :
      Supplied sources target input index step s .cacheLookup (.answer source found)
  | generated {app : String} {screen : ScreenSize}
      (content_eq : s.content = syntheticHierarchy step app screen) :
      Supplied sources target input index step s .xmlRegeneration .generated

namespace Engine

theorem localSources_of_mem_failing {e : Engine} {script : Script} {c : Context}
    (h : c ∈ e.failing script) : c.localSources =
      [.ofSiblings (siblings script.restore (e.survey script.restore))] := by
  obtain ⟨i, step, -, hc⟩ := mem_contexts.mp h
  obtain ⟨failure, -, rfl⟩ := Option.map_eq_some_iff.mp hc
  rfl

section Standard

variable {e : Engine} {sources : List Source} {allowRegeneration : Bool}

/-- The snapshot of a step that lookup is planned for is not valid, so that the step does not borrow
from itself. -/
theorem index_ne_of_lent (hchain : e.chain = .standard sources allowRegeneration) {script : Script}
    {c : Context} (hc : e.Shows script c)
    (hplan : Strategy.cacheLookup sources ∈ e.chain.plan c.failure c.issues) {j : Nat} {step : Step}
    (hj : script.steps[j]? = some step) {s : Snapshot} (hs : step.snapshot = some s) {now : Instant}
    (hvalid : (validateSnapshot e.limits now s).isValid) : j ≠ c.index := by
  rintro rfl
  have hcareful : e.chain.Careful := hchain ▸ Chain.careful_standard sources allowRegeneration
  obtain rfl : step = c.step := Option.some.inj (hj.symm.trans hc.step_eq)
  have hadapts := planned_of_valid hcareful hc hs hvalid hplan
  cases congrArg Strategy.id hadapts

theorem exists_supplied (hchain : e.chain = .standard sources allowRegeneration) {script : Script}
    {c : Context} (hc : c ∈ e.failing script) {strategy : Strategy}
    (hplan : strategy ∈ e.chain.plan c.failure c.issues) {s : Snapshot}
    (hs : (strategy.attempt c).result.recovered = some s) :
    ∃ origin, Supplied sources e.target script.restore c.index c.step s strategy.id origin ∧
      s.synthetic = (origin.isSynthetic && !origin.isBorrowed) := by
  have hshows := (e.enumerates_failing script).shows c hc
  obtain ⟨t, -, hlink⟩ := Chain.mem_plan hplan
  rw [hchain] at hlink
  obtain rfl | rfl | rfl | rfl := Chain.mem_standard hlink
  · obtain ⟨old, hold, rfl⟩ := Strategy.proposed_xmlRepair hs
    exact ⟨.own old, .mended hold (by simp), by simp⟩
  · obtain ⟨key, name, found, hkey, hfound, rfl⟩ := Strategy.proposed_cacheLookup hs
    obtain ⟨hsibling, hfits⟩ | ⟨source, hsource, hlookup⟩ :=
      findSnapshot_cases (localSources_of_mem_failing hc) hfound
    · obtain ⟨j, step, hj, hsnapshot, hvalid⟩ := mem_siblings hsibling
      have hne := index_ne_of_lent hchain hshows hplan hj hsnapshot hvalid
      have hthere : script.restore.steps[j]?.bind (·.snapshot) = some found := by
        rw [hj, Option.bind_some, hsnapshot]
      exact ⟨.sibling j found, .lent hkey hne hthere hfits (by simp), by simp⟩
    · exact ⟨.answer source found, .answered hkey hsource hlookup (by simp), by simp⟩
  · obtain ⟨device, old, htarget, hold, rfl⟩ := Strategy.proposed_deviceAdaptation hs
    have htarget : e.target = some device := hshows.target_eq ▸ htarget
    exact ⟨.own old, .adapted hold htarget (by simp), by simp⟩
  · obtain rfl := Strategy.proposed_regeneration hs
    exact ⟨.generated, .generated rfl, rfl⟩

theorem exists_supplied_recoverStep (hchain : e.chain = .standard sources allowRegeneration)
    {script : Script} {c : Context} (hc : c ∈ e.failing script) {id : StrategyId}
    (hid : (e.recoverStep c).outcome.recoveredBy = some id) :
    ∃ s origin, (e.recoverStep c).step = { c.step with snapshot := some s } ∧
      Supplied sources e.target script.restore c.index c.step s id origin ∧
      s.synthetic = (origin.isSynthetic && !origin.isBorrowed) := by
  obtain ⟨tried, strategy, rest, after, hplan, -, haccepts, heq⟩ | ⟨-, heq⟩ := e.recoverStep_ends c
  · have hplanned : strategy ∈ e.chain.plan c.failure c.issues := by simp [hplan]
    obtain ⟨-, s, hs, -⟩ := accepts?_eq_some haccepts
    obtain ⟨origin, hsupplied, hflag⟩ := exists_supplied hchain hc hplanned hs
    obtain ⟨t, -, hlink⟩ := Chain.mem_plan hplanned
    have hsigned : e.chain.Signed := hchain ▸ Chain.signed_standard sources allowRegeneration
    rw [heq, Option.some.injEq, hsigned.linked t strategy hlink c] at hid
    subst hid
    exact ⟨s, origin, by rw [heq, hs], hsupplied, hflag⟩
  · rw [heq] at hid
    cases hid

end Standard

/-- Along the standard chain, every snapshot that recovery puts into a step has an origin. It is
flagged as synthetic exactly if its content is and was not borrowed: a borrowed snapshot loses the
flag. -/
theorem synthetic_iff_origin (e : Engine) (sources : List Source) (allowRegeneration : Bool)
    (hchain : e.chain = .standard sources allowRegeneration) (cancelled : Progress → Bool)
    (script : Script) :
    let r := (e.run cancelled script).1
    ∀ o ∈ r.stepOutcomes, ∀ id, o.recoveredBy = some id →
      ∃ before s origin, script.restore.steps[o.index]? = some before ∧
        r.recoveredScript.steps[o.index]? = some { before with snapshot := some s } ∧
        Supplied sources e.target script.restore o.index before s id origin ∧
        (s.synthetic ↔ origin.isSynthetic ∧ origin.isBorrowed = false) := by
  intro r o ho id hid
  obtain ⟨k, -, hrun⟩ := e.exists_run cancelled script
  have hcs := (e.enumerates_failing script).take k
  simp only [r, hrun, summarize, List.map_map, List.mem_map, Function.comp_apply] at ho ⊢
  obtain ⟨c, hc, rfl⟩ := ho
  obtain ⟨s, origin, hstep, hsupplied, hflag⟩ :=
    exists_supplied_recoverStep hchain (List.mem_of_mem_take hc) hid
  rw [index_recoverStep, getElem?_replaceSteps_of_mem hcs hc, hstep]
  refine ⟨c.step, s, origin, (hcs.shows c hc).step_eq, rfl, hsupplied, ?_⟩
  simp [hflag]

def forSmallPages : Config := { validation := { minSizeBytes := 16 } }

def smallPage : String := "<hierarchy><node class=\"a\" bounds=\"[0,0][9,9]\"/></hierarchy>"

def pageTwice : Script where
  steps :=
    [{ id := "first"
       locator := { textField := some "OK" }
       snapshot := some { content := smallPage, page := { title := "Cart" }, synthetic := true } },
      { id := "second"
        params := [("pageTitle", .string "Cart")]
        locator := { textField := some "OK" } }]

def pageTwiceReport : Report :=
  ((standardFor forSmallPages [] none ⟨0, 0⟩).run (fun _ => false) pageTwice).1

theorem recoveredBy_pageTwice :
    pageTwiceReport.stepOutcomes.map (fun o => (o.index, o.recoveredBy)) =
      [(1, some .cacheLookup)] := by
  decide +kernel

theorem synthetic_iff_origin_pageTwice :
    ∃ o ∈ pageTwiceReport.stepOutcomes, o.recoveredBy = some .cacheLookup ∧
      ∃ before s origin, pageTwice.restore.steps[o.index]? = some before ∧
        Supplied [] none pageTwice.restore o.index before s .cacheLookup origin ∧
        (s.synthetic ↔ origin.isSynthetic ∧ origin.isBorrowed = false) := by
  have hmem : (1, some .cacheLookup) ∈
      pageTwiceReport.stepOutcomes.map fun o => (o.index, o.recoveredBy) := by
    rw [recoveredBy_pageTwice]
    exact List.mem_singleton_self _
  obtain ⟨o, ho, hpair⟩ := List.mem_map.mp hmem
  have hid : o.recoveredBy = some .cacheLookup := (Prod.mk.inj hpair).2
  refine ⟨o, ho, hid, ?_⟩
  rw [pageTwiceReport] at ho
  have horigins := synthetic_iff_origin (standardFor forSmallPages [] none ⟨0, 0⟩) [] true rfl
    (fun _ => false) pageTwice
  obtain ⟨before, s, origin, hbefore, -, hsupplied, hflag⟩ := horigins o ho _ hid
  exact ⟨before, s, origin, hbefore, hsupplied, hflag⟩

/-- The second step borrows a generated content, and is not flagged. -/
theorem synthetic_lost_pageTwice :
    pageTwiceReport.stepOutcomes.map (fun o => (o.index, o.recoveredBy)) =
        [(1, some .cacheLookup)] ∧
      pageTwice.restore.steps.map (·.snapshot.map fun s => (s.content, s.synthetic)) =
        [some (smallPage, true), none] ∧
      pageTwiceReport.recoveredScript.steps.map
          (·.snapshot.map fun s => (s.content, s.synthetic)) =
        [some (smallPage, true), some (smallPage, false)] :=
  ⟨recoveredBy_pageTwice, by decide +kernel, by decide +kernel⟩

end Engine

end Replay.Recovery
