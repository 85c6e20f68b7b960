import Replay.Proofs.Recovery.Adaptation
import Replay.Proofs.Recovery.Lookup
set_option autoImplicit false

namespace Replay.Recovery.Engine

theorem isValid_of_snapshot {limits : Limits} {step : Step}
    (hlocator : step.locator.isEmpty = false) {s : Snapshot} {now now' : Instant}
    (hvalid : (validateSnapshot limits now s).isValid) (index : Nat) :
    (validateStep limits now' index { step with snapshot := some s }).isValid := by
  rw [isValid_validateSnapshot _ now now'] at hvalid
  simp [validateStep, hlocator, hvalid]

/-- The sources answer nothing but valid snapshots. -/
def Trusted (e : Engine) (sources : List Source) : Prop :=
  ∀ source ∈ sources, ∀ turn key found, source.lookup turn key = some found →
    (validateSnapshot e.limits e.now found).isValid

theorem isValid_of_firstAnswer {e : Engine} {sources : List Source} (hsources : e.Trusted sources)
    {script : Script} {c : Context} (hc : c ∈ e.failing script) {key : LookupKey} {name : String}
    {found : Snapshot}
    (h : Source.firstAnswer c.index key (c.localSources ++ sources) = some (name, found)) :
    (validateSnapshot e.limits e.now found).isValid := by
  obtain ⟨source, hmem, hfound⟩ := Source.exists_of_firstAnswer h
  rw [localSources_of_mem_failing hc] at hmem
  obtain hlocal | hshared := List.mem_append.mp hmem
  · obtain rfl := List.mem_singleton.mp hlocal
    exact isValid_of_sibling (List.mem_of_find?_eq_some hfound) e.now
  · exact hsources source hshared c.index key found hfound

theorem size_generated (step : Step) (now now' : Instant) :
    (Strategy.generated step now).size = (Strategy.generated step now').size :=
  congrArg String.utf8ByteSize rfl

/-- A turn leaves a missing step valid: with the first answer to its key, or with what is generated
for it. -/
theorem isValid_recoverStep_missing {e : Engine} {sources : List Source}
    (hchain : e.chain = .standard sources true) (hsources : e.Trusted sources) {script : Script}
    {c : Context} (hc : c ∈ e.failing script) (hmissing : c.failure = .missing)
    (hlocator : c.step.locator.isEmpty = false)
    (hmin : max e.limits.minContentLength e.limits.minSizeBytes ≤
      (Strategy.generated c.step e.now).size)
    (hmax : (Strategy.generated c.step e.now).size ≤ e.limits.maxSizeBytes) (now : Instant) :
    (validateStep e.limits now c.index (e.recoverStep c).step).isValid := by
  by_cases hanswer : ((Strategy.cacheLookup sources).attempt c).result.success
  · obtain ⟨key, name, found, hkey, hfound⟩ := Strategy.success_cacheLookup hanswer
    have hvalid := isValid_of_firstAnswer hsources hc hfound
    obtain ⟨-, s, hstep, hcontent⟩ := recoverStep_of_answer hchain hmissing hkey hfound hvalid
    rw [← isValid_of_content_eq e.limits e.now e.now hcontent] at hvalid
    rw [hstep]
    exact isValid_of_snapshot hlocator hvalid c.index
  · have hlookup := accepts?_of_failure (e := e) (Bool.eq_false_iff.mpr hanswer)
    rw [size_generated _ _ c.now] at hmin hmax
    have hvalid : (validateSnapshot e.limits now (Strategy.generated c.step c.now)).isValid :=
      isValid_of_synthetic rfl hmin hmax now
    have hturn := recoverStep_of_generated hchain rfl hmissing hlocator hlookup hvalid
    rw [hturn.2]
    exact isValid_of_snapshot hlocator hvalid c.index

/-- Every missing step with a locator that the pass gets to is valid afterwards, if regeneration is
allowed, sources answer nothing but valid snapshots, and the size of what is generated for the step
is within the limits. -/
theorem missing_ends_valid (e : Engine) (sources : List Source)
    (hchain : e.chain = .standard sources true) (hsources : e.Trusted sources)
    (cancelled : Progress → Bool) (script : Script) (now : Instant) :
    let r := (e.run cancelled script).1
    ∀ (i : Nat) (step : Step), script.restore.steps[i]? = some step →
      e.classify step (validateStep e.limits (e.clock (.survey i)) i step) = some .missing →
      (r.cancelled → ∃ o ∈ r.stepOutcomes, o.index = i) →
      step.locator.isEmpty = false →
      max e.limits.minContentLength e.limits.minSizeBytes ≤ (Strategy.generated step e.now).size →
      (Strategy.generated step e.now).size ≤ e.limits.maxSizeBytes →
      ∃ report, (validateScript e.limits now r.recoveredScript).steps[i]? = some report ∧
        report.isValid := by
  intro r i step hi hmissing hreached hlocator hmin hmax
  obtain ⟨c, hc, rfl, hstep⟩ : ∃ c ∈ e.failing script, c.index = i ∧
      r.recoveredScript.steps[c.index]? = some (e.recoverStep c).step := by
    cases hend : r.cancelled with
    | true =>
      obtain ⟨o, ho, rfl⟩ := hreached hend
      obtain ⟨c, hc, rfl, hstep⟩ := e.exists_turn cancelled script ho
      exact ⟨c, hc, (e.index_recoverStep c).symm, hstep⟩
    | false =>
      obtain ⟨c, hc, hindex⟩ := exists_context hi hmissing
      exact ⟨c, hc, hindex, step_of_mem_failing hend hc⟩
  have hshows := (e.enumerates_failing script).shows c hc
  obtain rfl : c.step = step := Option.some.inj (hshows.step_eq.symm.trans hi)
  have hfailure : c.failure = .missing :=
    Option.some.inj (hshows.failure_eq.symm.trans hmissing)
  refine ⟨_, ?_, isValid_recoverStep_missing hchain hsources hc hfailure hlocator hmin hmax now⟩
  rw [getElem?_validateScript, restore_recoveredScript, hstep, Option.map_some]

def cartShelf : Source :=
  ⟨"shelf", fun _ key => if key.pageTitle = "Cart" then some wholePage else none⟩

def cartEngine : Engine := standardFor forSmallPages [cartShelf] none ⟨0, 0⟩

def askStep : Step where
  id := "ask"
  params := [("pageTitle", .string "Help")]
  locator := { textField := some "<Q & \"A\">" }

theorem trusted_cartShelf : cartEngine.Trusted [cartShelf] := by
  have hvalid : (validateSnapshot cartEngine.limits cartEngine.now wholePage).isValid := by
    decide +kernel
  intro source hsource turn key found hfound
  obtain rfl := List.mem_singleton.mp hsource
  obtain ⟨-, heq⟩ := Option.ite_none_right_eq_some.mp hfound
  obtain rfl := Option.some.inj heq
  exact hvalid

theorem missing_ends_valid_askStep :
    cartEngine.classify askStep
        (validateStep cartEngine.limits (cartEngine.clock (.survey 1)) 1 askStep) =
      some .missing ∧
    ∃ report, (validateScript cartEngine.limits ⟨5, 0⟩ (cartEngine.run (fun _ => false)
        { steps := [lostCartContext.step, askStep] }).1.recoveredScript).steps[1]? = some report ∧
      report.isValid := by
  have hwhole : (cartEngine.run (fun _ => false)
      { steps := [lostCartContext.step, askStep] }).1.cancelled = false := by
    simp only [run_of_turns (cartEngine.turns_all _ _), summarize, Nat.lt_irrefl, decide_false]
  refine ⟨rfl, missing_ends_valid cartEngine [cartShelf] rfl trusted_cartShelf (fun _ => false)
    { steps := [lostCartContext.step, askStep] } ⟨5, 0⟩ 1 askStep rfl rfl (fun hcancelled => ?_) rfl
    (by decide +kernel) (by decide +kernel)⟩
  rw [hwhole] at hcancelled
  cases hcancelled

end Replay.Recovery.Engine
