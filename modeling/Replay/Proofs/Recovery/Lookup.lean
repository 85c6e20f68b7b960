import Replay.Proofs.Recovery.Origin
import Replay.Proofs.Recovery.Synthetic
set_option autoImplicit false

/-!
Lookup along the standard chain. Sources are asked in order, the script of the pass before the
shared ones, and the first answer is what lookup proposes (`result_cacheLookup_of_answer`). A missing
step takes an answer that is valid (`recoverStep_of_answer`), so that one is generated for it only if
there is no answer or the first one is not valid (`regenerated_after_lookup`). What later sources
have is not asked for then (`regenerated_before_valid_answer`).
-/

namespace Replay.Recovery

namespace Strategy

variable {shared : List Source} {c : Context}

theorem result_cacheLookup_of_answer {key : LookupKey} (hkey : LookupKey.ofStep c.step = some key)
    {name : String} {found : Snapshot}
    (hfound : Source.firstAnswer c.index key (c.localSources ++ shared) = some (name, found)) :
    ((cacheLookup shared).attempt c).result = borrowed name found c.now := by
  rw [← findSnapshot_eq] at hfound
  simp only [cacheLookup, hkey]
  generalize findSnapshot shared c key = search at hfound
  obtain ⟨answer, queries⟩ := search
  obtain rfl : answer = some (name, found) := hfound
  rfl

theorem result_regeneration (hlocator : c.step.locator.isEmpty = false) :
    (regeneration.attempt c).result.success ∧
      (regeneration.attempt c).result.strategy = .xmlRegeneration ∧
      (regeneration.attempt c).result.recovered = some (generated c.step c.now) := by
  simp only [regeneration, hlocator]
  exact ⟨rfl, rfl, rfl⟩

theorem success_cacheLookup (h : ((cacheLookup shared).attempt c).result.success) :
    ∃ key name found, LookupKey.ofStep c.step = some key ∧
      Source.firstAnswer c.index key (c.localSources ++ shared) = some (name, found) := by
  simp only [cacheLookup] at h
  split at h
  · cases h
  · next key hkey =>
    split at h
    · next name found queries hfound =>
      exact ⟨key, name, found, hkey, by rw [← findSnapshot_eq, hfound]⟩
    · cases h

end Strategy

theorem Chain.plan_missing (sources : List Source) (allowRegeneration : Bool)
    (issues : List Issue) : (standard sources allowRegeneration).plan .missing issues =
      .cacheLookup sources :: if allowRegeneration then [.regeneration] else [] := by
  cases allowRegeneration <;> rfl

namespace Engine

section Turn

variable {e : Engine} {c : Context} {s : Strategy}

theorem accepts?_of_failure (h : (s.attempt c).result.success = false) : e.accepts? c s = none := by
  rw [accepts?, h]
  rfl

theorem accepts?_of_valid (hsuccess : (s.attempt c).result.success) {found : Snapshot}
    (hfound : (s.attempt c).result.recovered = some found) {now : Instant}
    (hvalid : (validateSnapshot e.limits now found).isValid) :
    ∃ after, e.accepts? c s = some after := by
  rw [isValid_validateSnapshot _ _ (e.clock (.verdict c.index s.id))] at hvalid
  simp [accepts?, accept?, hsuccess, hfound, hvalid]

theorem tryAll_of_accepted {tried rest : List Strategy} {after : StepReport}
    (htried : ∀ t ∈ tried, e.accepts? c t = none) (hs : e.accepts? c s = some after) :
    (e.tryAll c (validateStep e.limits (e.clock (.turn c.index)) c.index c.step)
      (tried ++ s :: rest)).accepted = some ((s.attempt c).result, after) := by
  induction tried with
  | nil =>
    rw [accepts?] at hs
    rw [List.nil_append, tryAll, hs]
  | cons t tried ih =>
    obtain ⟨ht, htried⟩ := List.forall_mem_cons.mp htried
    rw [accepts?] at ht
    rw [List.cons_append, tryAll, ht]
    exact ih htried

theorem recoverStep_of_accepted {tried rest : List Strategy}
    (hplan : e.chain.plan c.failure c.issues = tried ++ s :: rest)
    (htried : ∀ t ∈ tried, e.accepts? c t = none) {after : StepReport}
    (hs : e.accepts? c s = some after) :
    (e.recoverStep c).outcome.recoveredBy = some (s.attempt c).result.strategy ∧
      (e.recoverStep c).step = { c.step with snapshot := (s.attempt c).result.recovered } := by
  simp only [recoverStep, hplan, tryAll_of_accepted htried hs, and_self]

end Turn

section Standard

variable {e : Engine} {sources : List Source} {allowRegeneration : Bool}
  (hchain : e.chain = .standard sources allowRegeneration) {c : Context}
include hchain

/-- A missing step takes the first answer to its key if that is valid. -/
theorem recoverStep_of_answer (hmissing : c.failure = .missing) {key : LookupKey}
    (hkey : LookupKey.ofStep c.step = some key) {name : String} {found : Snapshot}
    (hfound : Source.firstAnswer c.index key (c.localSources ++ sources) = some (name, found))
    {now : Instant} (hvalid : (validateSnapshot e.limits now found).isValid) :
    (e.recoverStep c).outcome.recoveredBy = some .cacheLookup ∧
      ∃ s, (e.recoverStep c).step = { c.step with snapshot := some s } ∧
        s.content = found.content := by
  have hresult := Strategy.result_cacheLookup_of_answer hkey hfound
  obtain ⟨s, hs, hcontent⟩ : ∃ s,
      (((Strategy.cacheLookup sources).attempt c).result).recovered = some s ∧
        s.content = found.content := by
    rw [hresult]
    exact ⟨_, rfl, rfl⟩
  rw [← isValid_of_content_eq e.limits now now hcontent] at hvalid
  obtain ⟨after, haccepts⟩ := accepts?_of_valid (by rw [hresult]; rfl) hs hvalid
  obtain ⟨rest, hplan⟩ : ∃ rest, e.chain.plan c.failure c.issues =
      [] ++ Strategy.cacheLookup sources :: rest := by
    rw [hchain, hmissing]
    exact ⟨_, Chain.plan_missing sources allowRegeneration c.issues⟩
  obtain ⟨hby, hstep⟩ := recoverStep_of_accepted hplan nofun haccepts
  exact ⟨by rw [hby, hresult]; rfl, s, by rw [hstep, hs], hcontent⟩

/-- A missing step for which lookup has nothing takes what is generated, if that is valid. -/
theorem recoverStep_of_generated (hallowed : allowRegeneration = true)
    (hmissing : c.failure = .missing) (hlocator : c.step.locator.isEmpty = false)
    (hlookup : e.accepts? c (.cacheLookup sources) = none) {now : Instant}
    (hvalid : (validateSnapshot e.limits now (Strategy.generated c.step c.now)).isValid) :
    (e.recoverStep c).outcome.recoveredBy = some .xmlRegeneration ∧
      (e.recoverStep c).step =
        { c.step with snapshot := some (Strategy.generated c.step c.now) } := by
  obtain ⟨hsuccess, hstrategy, hrecovered⟩ := Strategy.result_regeneration hlocator
  obtain ⟨after, haccepts⟩ := accepts?_of_valid hsuccess hrecovered hvalid
  have hplan : e.chain.plan c.failure c.issues =
      [.cacheLookup sources] ++ Strategy.regeneration :: [] := by
    rw [hchain, hmissing, Chain.plan_missing, if_pos hallowed]
    rfl
  have hturn := recoverStep_of_accepted hplan (by simpa using hlookup) haccepts
  rwa [hstrategy, hrecovered] at hturn

end Standard

def lookupOrder (e : Engine) (sources : List Source) (script : Script) : List Source :=
  .ofSiblings (siblings script.restore (e.survey script.restore)) :: sources

theorem lookupOrder_eq {e : Engine} {script : Script} {c : Context} (hc : c ∈ e.failing script)
    (sources : List Source) : e.lookupOrder sources script = c.localSources ++ sources := by
  rw [localSources_of_mem_failing hc]
  rfl

theorem isValid_of_sibling {e : Engine} {script : Script} {s : Snapshot}
    (h : s ∈ siblings script.restore (e.survey script.restore)) (now : Instant) :
    (validateSnapshot e.limits now s).isValid := by
  obtain ⟨j, _, -, -, hvalid⟩ := mem_siblings h
  rwa [isValid_validateSnapshot _ now (e.clock (.survey j))]

/-- A snapshot is generated for a missing step only if lookup has nothing for it: no other step of
the script shows its page, and the first source that answers its key, if any does, answers with a
snapshot that is not valid. -/
theorem regenerated_after_lookup (e : Engine) (sources : List Source) (allowRegeneration : Bool)
    (hchain : e.chain = .standard sources allowRegeneration) (cancelled : Progress → Bool)
    (script : Script) :
    ∀ o ∈ (e.run cancelled script).1.stepOutcomes, o.failure = .missing →
      o.recoveredBy = some .xmlRegeneration →
      ∃ step, script.restore.steps[o.index]? = some step ∧
        ∀ key, LookupKey.ofStep step = some key →
          (∀ s ∈ siblings script.restore (e.survey script.restore), ¬ key.fits s) ∧
          ∀ earlier source later, e.lookupOrder sources script = earlier ++ source :: later →
            (∀ s ∈ earlier, s.lookup o.index key = none) →
            ∀ found, source.lookup o.index key = some found →
            ∀ now, (validateSnapshot e.limits now found).isValid = false := by
  intro o ho hmissing hby
  obtain ⟨c, hc, rfl, -⟩ := e.exists_turn cancelled script ho
  rw [failure_recoverStep] at hmissing
  rw [index_recoverStep]
  refine ⟨c.step, ((e.enumerates_failing script).shows c hc).step_eq, fun key hkey => ?_⟩
  -- The first answer would have been taken if it were valid.
  have hfirst : ∀ earlier source later,
      e.lookupOrder sources script = earlier ++ source :: later →
      (∀ s ∈ earlier, s.lookup c.index key = none) →
      ∀ found, source.lookup c.index key = some found →
      ∀ now, (validateSnapshot e.limits now found).isValid = false := by
    intro earlier source later horder hearlier found hfound now
    rw [lookupOrder_eq hc] at horder
    refine Bool.eq_false_iff.mpr fun hvalid => ?_
    have hanswer := Source.firstAnswer_eq_some.mpr
      ⟨earlier, source, later, horder, hearlier, rfl, hfound⟩
    have htaken := recoverStep_of_answer hchain hmissing hkey hanswer hvalid
    rw [htaken.1] at hby
    cases hby
  refine ⟨fun s hs hfits => ?_, hfirst⟩
  have hlookup := (List.find?_isSome (p := key.fits)).mpr ⟨s, hs, hfits⟩
  obtain ⟨found, hfound⟩ := Option.isSome_iff_exists.mp hlookup
  have hinvalid := hfirst [] _ sources rfl nofun found hfound e.now
  rw [isValid_of_sibling (List.mem_of_find?_eq_some hfound)] at hinvalid
  cases hinvalid

def lostCart : Script where
  steps :=
    [{ id := "buy"
       params := [("pageTitle", .string "Cart")]
       locator := { textField := some "OK" } }]

def tornPage : Snapshot := { content := "<hierarchy>" }

def tornShelf : Source := ⟨"torn", fun _ _ => some tornPage⟩

def wholePage : Snapshot := { content := smallPage }

def wholeShelf : Source := ⟨"whole", fun _ _ => some wholePage⟩

def shelvesEngine : Engine := standardFor forSmallPages [tornShelf, wholeShelf] none ⟨0, 0⟩

def lostCartReport : Report := (shelvesEngine.run (fun _ => false) lostCart).1

def lostCartContext : Context where
  index := 0
  step := { id := "buy", params := [("pageTitle", .string "Cart")]
            locator := { textField := some "OK" } }
  failure := .missing
  issues := [missingSnapshot 0]
  target := none
  localSources := [.ofSiblings []]
  now := ⟨0, 0⟩

theorem failing_lostCart : shelvesEngine.failing lostCart = [lostCartContext] := rfl

theorem recoveredBy_lostCart : (shelvesEngine.recoverStep lostCartContext).outcome.recoveredBy =
    some .xmlRegeneration := by
  have hvalid : (validateSnapshot shelvesEngine.limits ⟨0, 0⟩
      (Strategy.generated lostCartContext.step ⟨0, 0⟩)).isValid :=
    isValid_of_synthetic rfl (by decide +kernel) (by decide +kernel) _
  have hrefused : shelvesEngine.accepts? lostCartContext
      (.cacheLookup [tornShelf, wholeShelf]) = none := by
    decide +kernel
  exact (recoverStep_of_generated (e := shelvesEngine) rfl rfl rfl rfl hrefused hvalid).1

theorem outcome_lostCart :
    (shelvesEngine.recoverStep lostCartContext).outcome ∈ lostCartReport.stepOutcomes := by
  rw [lostCartReport, run_of_turns (shelvesEngine.turns_all _ _), failing_lostCart]
  exact List.mem_singleton_self _

theorem missing_lostCart :
    (shelvesEngine.recoverStep lostCartContext).outcome.failure = .missing :=
  shelvesEngine.failure_recoverStep lostCartContext

theorem regenerated_after_lookup_lostCart :
    ∃ o ∈ lostCartReport.stepOutcomes, o.failure = .missing ∧
      o.recoveredBy = some .xmlRegeneration ∧
      (validateSnapshot shelvesEngine.limits ⟨0, 0⟩ tornPage).isValid = false := by
  have hturn := regenerated_after_lookup shelvesEngine [tornShelf, wholeShelf] true rfl
    (fun _ => false) lostCart _ outcome_lostCart missing_lostCart recoveredBy_lostCart
  rw [index_recoverStep] at hturn
  obtain ⟨step, hstep, hlookup⟩ := hturn
  obtain rfl : lostCartContext.step = step := Option.some.inj hstep
  obtain ⟨hsiblings, hfirst⟩ := hlookup ⟨"", "Cart"⟩ (by decide +kernel)
  -- The script has no other step, so that the torn page is the first answer.
  have hsilent : ∀ s ∈ [Source.ofSiblings (siblings lostCart.restore
      (shelvesEngine.survey lostCart.restore))], s.lookup 0 ⟨"", "Cart"⟩ = none := by
    intro s hs
    obtain rfl := List.mem_singleton.mp hs
    exact List.find?_eq_none.mpr hsiblings
  have hinvalid := hfirst [_] tornShelf [wholeShelf] rfl hsilent tornPage rfl
  exact ⟨_, outcome_lostCart, missing_lostCart, recoveredBy_lostCart, hinvalid _⟩

/-- A snapshot can be generated although some source has a valid one: what a source has is not asked
for once another one has answered. -/
theorem regenerated_before_valid_answer :
    ¬ ∀ (config : Config) (sources : List Source) (target : Option Device) (now : Instant)
      (cancelled : Progress → Bool) (script : Script),
      let e := standardFor config sources target now
      ∀ o ∈ (e.run cancelled script).1.stepOutcomes, o.failure = .missing →
        o.recoveredBy = some .xmlRegeneration →
        ∀ step, script.restore.steps[o.index]? = some step →
        ∀ key, LookupKey.ofStep step = some key →
        ∀ source ∈ e.lookupOrder sources script, ∀ found, source.lookup o.index key = some found →
          (validateSnapshot e.limits now found).isValid = false := by
  intro h
  have hnone := h forSmallPages [tornShelf, wholeShelf] none ⟨0, 0⟩ (fun _ => false) lostCart _
    outcome_lostCart missing_lostCart recoveredBy_lostCart _
    (congrArg (lostCart.restore.steps[·]?) (shelvesEngine.index_recoverStep lostCartContext))
    ⟨"", "Cart"⟩ (by decide +kernel) wholeShelf (by simp [lookupOrder]) wholePage rfl
  have hvalid : (validateSnapshot shelvesEngine.limits ⟨0, 0⟩ wholePage).isValid = true := by
    decide +kernel
  exact absurd hvalid (Bool.eq_false_iff.mp hnone)

end Engine

end Replay.Recovery
