import Replay.Proofs.Recovery.Origin
import Replay.Proofs.Validation.Findings
set_option autoImplicit false

/-!
What the shared sources are asked. Along the standard chain only lookup asks them, and it is planned
once at most, so that a turn asks what its outcome tells (`queries_recoverStep`): nothing unless the
plan was followed up to the lookup and the script had no answer, and else the key of the step, up to
the first answer (`Source.ask_queries`). A plan with a repair begins with it (`plan_of_repair`), so
that a step that was repaired asks nothing. The queries of a pass are those of its turns
(`queries_run`).
-/

namespace Replay

theorem Examination.exists_malformed {e : Examination} {i : Issue} (hi : i ∈ e.report.issues)
    (hcode : i.code = .invalidXmlFormat) : ∃ earlier j later,
      e.report.issues = earlier ++ j :: later ∧ j.code = .invalidXmlFormat ∧
      ∀ k ∈ earlier, k.code = .missingXmlContent := by
  have hcodes (c : Check) (j : Issue) (hj : e.finding c = some j) :
      failureCode e.limits e.snapshot c = some j.code := by
    have hfound := e.code_of_finding c
    rw [hj, Option.map_some] at hfound
    split at hfound
    · cases hfound
    · exact hfound.symm
  obtain ⟨c, -, hc⟩ := List.mem_filterMap.mp hi
  obtain rfl : c = .format := by
    have hcheck := IssueCode.check_of_failureCode (hcodes c i hc)
    rw [hcode] at hcheck
    exact (Option.some.inj hcheck).symm
  have hreport : e.report.issues = (e.finding .content).toList ++
      i :: [Check.device, .page, .timestamp, .size, .structured].filterMap e.finding := by
    rw [report, Check.all, List.filterMap_cons, List.filterMap_cons_some hc]
    cases e.finding .content <;> rfl
  refine ⟨_, i, _, hreport, hcode, fun k hk => ?_⟩
  exact (Option.some.inj (hcodes .content k (Option.mem_toList.mp hk))).symm

theorem exists_malformed_step {limits : Limits} {now : Instant} {index : Nat} {step : Step}
    {i : Issue} (hi : i ∈ (validateStep limits now index step).issues)
    (hcode : i.code = .invalidXmlFormat) : ∃ earlier j later,
      (validateStep limits now index step).issues = earlier ++ j :: later ∧
      j.code = .invalidXmlFormat ∧ ∀ k ∈ earlier, k.code = .missingXmlContent := by
  have hlocator : i ∉ if !step.locator.isEmpty then [] else [missingLocator index] := by
    split
    · exact List.not_mem_nil
    · intro h
      rw [List.mem_singleton.mp h] at hcode
      cases hcode
  cases hs : step.snapshot with
  | none =>
    simp only [validateStep, hs, Option.map_none, List.mem_append, hlocator, or_false] at hi
    rw [List.mem_singleton.mp hi] at hcode
    cases hcode
  | some s =>
    simp only [validateStep, hs, Option.map_some, List.mem_append, hlocator, or_false] at hi ⊢
    obtain ⟨earlier, j, later, hissues, hj, hearlier⟩ := Examination.exists_malformed hi hcode
    rw [validateSnapshot, hissues, List.append_assoc, List.cons_append]
    exact ⟨earlier, j, _, rfl, hj, hearlier⟩

namespace Recovery

theorem mem_upto_iff {α : Type} [DecidableEq α] {before after : List α} {x y : α}
    (h : (before ++ y :: after).Nodup) : x ∈ before ++ [y] ↔
      x ∈ before ++ y :: after ∧ y ∉ (before ++ y :: after).takeWhile (· ≠ x) := by
  induction before with
  | nil =>
    by_cases hx : y = x
    · simp [hx]
    · simp [hx, Ne.symm hx]
  | cons z before ih =>
    obtain ⟨hz, hrest⟩ := List.nodup_cons.mp h
    have hy : y ≠ z := fun heq => hz (heq ▸ by simp)
    by_cases hx : z = x
    · simp [hx]
    · have hrest := ih hrest
      simp only [List.mem_append, List.mem_singleton] at hrest
      simp [hx, Ne.symm hx, hy, hrest]

namespace Source

def asked (turn : Nat) (key : LookupKey) (sources : List Source) : List Query :=
  let answering := sources.findIdx fun s => (s.lookup turn key).isSome
  (List.range (min (answering + 1) sources.length)).map (⟨·, key⟩)

theorem ask_queries (turn : Nat) (key : LookupKey) (n : Nat) (sources : List Source) :
    (ask turn key n sources).2 = (asked turn key sources).map fun q => ⟨n + q.source, key⟩ := by
  induction sources generalizing n with
  | nil => rfl
  | cons s rest ih =>
    rw [ask, asked, List.findIdx_cons]
    cases hs : s.lookup turn key with
    | some found => simp
    | none =>
      simp only [ih, asked, Option.isSome_none, cond_false, List.length_cons,
        Nat.add_min_add_right, List.range_succ_eq_map, List.map_cons, List.map_map, Nat.add_zero]
      refine congrArg (_ :: ·) (List.map_congr_left fun i _ => ?_)
      simp only [Function.comp_apply, Nat.succ_eq_add_one, Query.mk.injEq, and_true]
      omega

theorem nodup_asked (turn : Nat) (key : LookupKey) (sources : List Source) :
    ((asked turn key sources).map (·.source)).Nodup := by
  rw [asked, List.map_map]
  exact List.nodup_range.map fun _ _ h => h

end Source

namespace Chain

theorem prefix_foldl_addNew (ss plan : List Strategy) : plan <+: ss.foldl addNew plan := by
  induction ss generalizing plan with
  | nil => exact List.prefix_refl plan
  | cons s rest ih =>
    have hfirst : plan <+: addNew plan s := by
      by_cases hs : s.id ∈ plan.map (·.id)
      · exact (addNew_of_planned hs).symm ▸ List.prefix_refl plan
      · exact addNew_of_new hs ▸ List.prefix_append plan [s]
    exact hfirst.trans (ih _)

section Standard

variable {sources : List Source} {allowRegeneration : Bool}

theorem eq_cacheLookup {t : Trigger} {s : Strategy}
    (h : (t, s) ∈ (standard sources allowRegeneration).links) (hid : s.id = .cacheLookup) :
    s = .cacheLookup sources := by
  obtain rfl | rfl | rfl | rfl := mem_standard h
  · cases hid
  · rfl
  · cases hid
  · cases hid

theorem queries_of_ne {t : Trigger} {s : Strategy}
    (h : (t, s) ∈ (standard sources allowRegeneration).links) (hid : s.id ≠ .cacheLookup)
    (c : Context) : (s.attempt c).queries = [] := by
  obtain rfl | rfl | rfl | rfl := mem_standard h
  · simp only [Strategy.xmlRepair]
    split <;> rfl
  · exact absurd rfl hid
  · simp only [Strategy.deviceAdaptation]
    split <;> rfl
  · simp only [Strategy.regeneration]
    split <;> rfl

theorem trigger_of_repair {t : Trigger} {s : Strategy}
    (h : (t, s) ∈ (standard sources allowRegeneration).links) (hid : s.id = .xmlRepair) :
    t = .issue .invalidXmlFormat := by
  have hall : ∀ x ∈ (standard sources allowRegeneration).links,
      x.2.id = .xmlRepair → x.1 = .issue .invalidXmlFormat := by
    cases allowRegeneration <;> simp [standard, Strategy.cacheLookup, Strategy.regeneration,
      Strategy.deviceAdaptation]
  exact hall (t, s) h hid

theorem plan_malformed {earlier later : List Issue} {i : Issue} (hi : i.code = .invalidXmlFormat)
    (hearlier : ∀ j ∈ earlier, j.code = .missingXmlContent) :
    ∃ rest, (standard sources allowRegeneration).plan .corrupted (earlier ++ i :: later) =
      .xmlRepair :: .cacheLookup sources :: rest := by
  have hnone : (standard sources allowRegeneration).plan .corrupted ([] ++ earlier) =
      (standard sources allowRegeneration).plan .corrupted [] := by
    refine plan_append_of_planned fun j hj s hs => ?_
    rw [hearlier j hj] at hs
    cases allowRegeneration <;> simp [standard] at hs
  have hlinked : (standard sources allowRegeneration).linkedTo (.issue i.code) =
      [.xmlRepair, .cacheLookup sources] := by
    rw [hi]
    cases allowRegeneration <;> rfl
  obtain ⟨rest, hrest⟩ := prefix_foldl_addNew
    ((triggers .corrupted later).flatMap (standard sources allowRegeneration).linkedTo)
    [.xmlRepair, .cacheLookup sources]
  refine ⟨rest, ?_⟩
  rw [List.nil_append] at hnone
  rw [plan_append, hnone, triggers, List.map_cons, List.flatMap_cons, hlinked, List.foldl_append]
  exact hrest.symm

end Standard

end Chain

namespace Engine

def holds (e : Engine) (script : Script) (key : LookupKey) : Bool :=
  script.steps.zipIdx.any fun (step, i) => step.snapshot.any fun s =>
    (validateSnapshot e.limits (e.clock (.survey i)) s).isValid && key.fits s

theorem holds_iff {e : Engine} {script : Script} {key : LookupKey} :
    e.holds script key ↔ ∃ s ∈ siblings script (e.survey script), key.fits s := by
  simp only [holds, List.any_eq_true, List.mem_zipIdx_iff_getElem?, Option.any_eq_true,
    Bool.and_eq_true, Prod.exists]
  constructor
  · rintro ⟨step, i, hi, s, hs, hvalid, hfits⟩
    refine ⟨s, List.mem_filterMap.mpr ⟨validateStep e.limits (e.clock (.survey i)) i step, ?_, ?_⟩,
      hfits⟩
    · have hlt := (List.getElem?_eq_some_iff.mp hi).1
      refine List.mem_filter.mpr ⟨List.mem_mapIdx.mpr ⟨i, hlt, ?_⟩, ?_⟩
      · rw [(List.getElem?_eq_some_iff.mp hi).2]
      · simp [validateStep, hs, hvalid]
    · change (script.steps[i]?.bind (·.snapshot)).filter (·.hasContent) = some s
      rw [hi, Option.bind_some, hs, Option.filter_some, if_pos (hasContent_of_valid hvalid)]
  · rintro ⟨s, hs, hfits⟩
    obtain ⟨i, step, hi, hsnapshot, hvalid⟩ := mem_siblings hs
    exact ⟨step, i, hi, s, hsnapshot, hvalid, hfits⟩

/-- The plan was followed up to a lookup: there is one in it, and no strategy planned before it
recovered the step. -/
def cameToLookup (e : Engine) (o : StepOutcome) : Bool :=
  let ids := (e.chain.plan o.failure o.foundIssues).map (·.id)
  ids.contains .cacheLookup &&
    o.recoveredBy.all fun id => !(ids.takeWhile (· ≠ .cacheLookup)).contains id

/-- What the sources are to be asked for a step of the script, by the outcome of its turn. -/
def due (e : Engine) (sources : List Source) (script : Script) (o : StepOutcome) : List Query :=
  if e.cameToLookup o then
    match script.steps[o.index]?.bind LookupKey.ofStep with
    | none => []
    | some key => if e.holds script key then [] else Source.asked o.index key sources
  else []

theorem nodup_due (e : Engine) (sources : List Source) (script : Script) (o : StepOutcome) :
    ((e.due sources script o).map (·.source)).Nodup := by
  unfold due
  split
  · split
    · exact List.nodup_nil
    · split
      · exact List.nodup_nil
      · exact Source.nodup_asked _ _ sources
  · exact List.nodup_nil

section Lookup

variable {e : Engine} {script : Script} {c : Context} (hc : c ∈ e.failing script)
  (sources : List Source)
include hc

theorem queries_findSnapshot (key : LookupKey) : (Strategy.findSnapshot sources c key).2 =
    if e.holds script.restore key then [] else Source.asked c.index key sources := by
  have hlocal : Source.firstAnswer c.index key c.localSources =
      ((siblings script.restore (e.survey script.restore)).find? key.fits).map
        fun found => ("script", found) := by
    rw [localSources_of_mem_failing hc]
    simp only [Source.firstAnswer, Source.ofSiblings, List.findSome?_singleton]
  have hasked : (Source.ask c.index key 0 sources).2 = Source.asked c.index key sources := by
    rw [Source.ask_queries]
    simp [Source.asked]
  rw [Strategy.findSnapshot, hlocal]
  cases hfound : (siblings script.restore (e.survey script.restore)).find? key.fits with
  | some found =>
    rw [if_pos (holds_iff.mpr ⟨found, List.mem_of_find?_eq_some hfound, List.find?_some hfound⟩)]
    rfl
  | none =>
    have hholds : ¬ e.holds script.restore key := fun h => by
      obtain ⟨s, hs, hfits⟩ := holds_iff.mp h
      exact List.find?_eq_none.mp hfound s hs hfits
    rw [if_neg hholds]
    exact hasked

theorem queries_cacheLookup : ((Strategy.cacheLookup sources).attempt c).queries =
    match LookupKey.ofStep c.step with
    | none => []
    | some key => if e.holds script.restore key then [] else Source.asked c.index key sources := by
  simp only [Strategy.cacheLookup]
  cases LookupKey.ofStep c.step with
  | none => rfl
  | some key =>
    have hqueries := queries_findSnapshot hc sources key
    dsimp only
    rw [← hqueries]
    split <;> next heq => rw [heq]

end Lookup

section Standard

variable {e : Engine} {sources : List Source} {allowRegeneration : Bool}
  (hchain : e.chain = .standard sources allowRegeneration) {script : Script} {c : Context}
include hchain

theorem queriesOf_planned {ss : List Strategy} (h : ss.Sublist (e.chain.plan c.failure c.issues)) :
    queriesOf c ss = if .cacheLookup ∈ ss.map (·.id) then
      ((Strategy.cacheLookup sources).attempt c).queries else [] := by
  induction ss with
  | nil => rfl
  | cons s rest ih =>
    have hnew := (e.chain.nodup_plan c.failure c.issues).sublist (h.map (·.id))
    rw [List.map_cons, List.nodup_cons] at hnew
    obtain ⟨t, -, hlink⟩ := Chain.mem_plan (h.subset List.mem_cons_self)
    rw [hchain] at hlink
    rw [queriesOf, List.flatMap_cons, ← queriesOf, ih (List.sublist_of_cons_sublist h),
      List.map_cons]
    by_cases hid : s.id = .cacheLookup
    · obtain rfl := Chain.eq_cacheLookup hlink hid
      rw [if_neg (hid ▸ hnew.1), List.append_nil, if_pos (hid ▸ List.mem_cons_self)]
    · simp only [Chain.queries_of_ne hlink hid, List.nil_append, List.mem_cons, Ne.symm hid,
        false_or]

theorem recoverStep_stops (c : Context) :
    let r := e.recoverStep c
    (∃ tried s rest, e.chain.plan c.failure c.issues = tried ++ s :: rest ∧
      r.outcome.recoveredBy = some s.id ∧ r.queries = queriesOf c (tried ++ [s])) ∨
    r.outcome.recoveredBy = none ∧ r.queries = queriesOf c (e.chain.plan c.failure c.issues) := by
  obtain ⟨tried, s, rest, after, hplan, -, -, heq⟩ | ⟨-, heq⟩ := e.recoverStep_ends c
  · have hs : (s.attempt c).result.strategy = s.id := by
      obtain ⟨t, -, hlink⟩ :=
        Chain.mem_plan (hplan ▸ List.mem_append_right tried List.mem_cons_self)
      exact (hchain ▸ Chain.signed_standard sources allowRegeneration).linked t s hlink c
    exact Or.inl ⟨tried, s, rest, hplan, by rw [heq, hs], by rw [heq]⟩
  · have hfallback : e.chain.fallback = .manualGuidance := by
      rw [hchain]
      rfl
    refine Or.inr ⟨by rw [heq], ?_⟩
    simp [heq, queriesOf, hfallback, Strategy.manualGuidance]

/-- A turn asks what its outcome tells. -/
theorem queries_recoverStep (hc : c ∈ e.failing script) :
    (e.recoverStep c).queries = e.due sources script.restore (e.recoverStep c).outcome := by
  have hstep : script.restore.steps[c.index]? = some c.step :=
    ((e.enumerates_failing script).shows c hc).step_eq
  rw [due, cameToLookup, index_recoverStep, failure_recoverStep, foundIssues_recoverStep, hstep,
    Option.bind_some, ← queries_cacheLookup hc sources]
  obtain ⟨tried, s, rest, hplan, hid, hqueries⟩ | ⟨hid, hqueries⟩ := recoverStep_stops hchain c
  · have hnodup := e.chain.nodup_plan c.failure c.issues
    have hsub : (tried ++ [s]).Sublist (e.chain.plan c.failure c.issues) := by
      rw [hplan, List.append_cons tried s rest]
      exact List.sublist_append_left _ _
    rw [hplan, List.map_append, List.map_cons] at hnodup
    rw [hid, hqueries, queriesOf_planned hchain hsub, hplan, List.map_append, List.map_singleton]
    simp only [List.map_append, List.map_cons, mem_upto_iff hnodup, Option.all_some,
      Bool.and_eq_true, Bool.not_eq_true', List.contains_eq_mem, decide_eq_true_eq,
      decide_eq_false_iff_not]
  · rw [hid, hqueries, queriesOf_planned hchain (List.Sublist.refl _)]
    simp

/-- A plan with a repair begins with it, and goes on with a lookup. -/
theorem plan_of_repair (hc : e.Shows script c)
    (h : .xmlRepair ∈ (e.chain.plan c.failure c.issues).map (·.id)) :
    ∃ rest, e.chain.plan c.failure c.issues = .xmlRepair :: .cacheLookup sources :: rest := by
  obtain ⟨s, hs, hid⟩ := List.mem_map.mp h
  obtain ⟨t, ht, hlink⟩ := Chain.mem_plan hs
  rw [hchain] at hlink ⊢
  rw [Chain.trigger_of_repair hlink hid] at ht
  cases hfailure : c.failure with
  | corrupted =>
    rw [hfailure] at ht
    obtain ⟨i, hi, hcode⟩ := List.mem_map.mp ht
    rw [hc.issues_eq] at hi ⊢
    split at hi
    · cases hi
    · next hinvalid =>
      rw [if_neg hinvalid]
      obtain ⟨earlier, j, later, hissues, hj, hearlier⟩ :=
        exists_malformed_step hi (Trigger.issue.inj hcode)
      rw [surveyed, hissues]
      exact Chain.plan_malformed hj hearlier
  | missing | deviceIncompatible =>
    rw [hfailure] at ht
    cases List.mem_singleton.mp ht

theorem due_of_repaired (hc : c ∈ e.failing script)
    (h : (e.recoverStep c).outcome.recoveredBy = some .xmlRepair) :
    e.due sources script.restore (e.recoverStep c).outcome = [] := by
  have hplanned : .xmlRepair ∈ (e.chain.plan c.failure c.issues).map (·.id) := by
    obtain ⟨tried, s, rest, hplan, hid, -⟩ | ⟨hid, -⟩ := recoverStep_stops hchain c
    · rw [h, Option.some.injEq] at hid
      simp [hplan, hid]
    · rw [h] at hid
      cases hid
  obtain ⟨rest, hplan⟩ := plan_of_repair hchain ((e.enumerates_failing script).shows c hc) hplanned
  rw [due, cameToLookup, failure_recoverStep, foundIssues_recoverStep, hplan, h]
  rfl

end Standard

/-- Along the standard chain a pass asks, for the failing steps in the order of their turns, what is
due for each, which is nothing for a step that was repaired and never asks a source twice. -/
theorem queries_run (e : Engine) (sources : List Source) (allowRegeneration : Bool)
    (hchain : e.chain = .standard sources allowRegeneration) (cancelled : Progress → Bool)
    (script : Script) :
    let r := e.run cancelled script
    r.2 = r.1.stepOutcomes.flatMap (e.due sources script.restore) ∧
    r.1.stepOutcomes.Pairwise (·.index < ·.index) ∧
    ∀ o ∈ r.1.stepOutcomes,
      ((e.due sources script.restore o).map (·.source)).Nodup ∧
      (o.recoveredBy = some .xmlRepair → e.due sources script.restore o = []) := by
  intro r
  obtain ⟨k, hk, -⟩ := e.exists_turns cancelled ⟨0, []⟩ (e.failing script)
  have hrun : r.1.stepOutcomes = ((e.failing script).take k).map fun c =>
      (e.recoverStep c).outcome := by
    simp only [r, run_of_turns hk, summarize, List.map_map, Function.comp_def]
  refine ⟨?_, ?_, fun o ho => ?_⟩
  · rw [hrun, List.flatMap_map]
    simp only [r, run_of_turns hk, List.flatMap_map]
    exact List.flatMap_congr fun c hc => queries_recoverStep hchain (List.mem_of_mem_take hc)
  · rw [hrun, List.pairwise_map]
    simpa only [index_recoverStep] using ((e.enumerates_failing script).take k).ordered
  · obtain ⟨c, hc, rfl, -⟩ := exists_turn e cancelled script ho
    exact ⟨e.nodup_due sources script.restore _, due_of_repaired hchain hc⟩

/-- A source that has no page in the first turn and every page later, one that has every page, and
one that is never asked. -/
def shelves : List Source :=
  [⟨"late", fun turn key => if turn = 0 then none else some (page key)⟩,
    ⟨"archive", fun _ key => some (page key)⟩,
    ⟨"spare", fun _ _ => none⟩]
where
  page (key : LookupKey) : Snapshot :=
    { content := "<node bounds=\"\"/>", page := { title := key.pageTitle } }

def cutShort : Script where
  steps :=
    [{ id := "first"
       params := [("pageTitle", .string "Cart")]
       locator := { textField := some "OK" } },
      { id := "second"
        locator := { textField := some "OK" }
        snapshot := some { content := "<node bounds=\"\">", page := { title := "Cart" } } },
      { id := "third"
        params := [("pageTitle", .string "Cart")]
        locator := { textField := some "OK" } },
      { id := "fourth" }]

def browsing : Engine := standardFor forSmallPages shelves none ⟨0, 0⟩

theorem queries_run_cutShort :
    (browsing.run (fun _ => false) cutShort).2 =
      [⟨0, ⟨"", "Cart"⟩⟩, ⟨1, ⟨"", "Cart"⟩⟩, ⟨0, ⟨"", "Cart"⟩⟩] ∧
    (browsing.run (fun _ => false) cutShort).1.stepOutcomes.map (·.recoveredBy) =
      [some .cacheLookup, some .xmlRepair, some .cacheLookup, none] := by
  have hasked := browsing.queries_run shelves true rfl (fun _ => false) cutShort
  have hdue : (browsing.run (fun _ => false) cutShort).1.stepOutcomes.flatMap
      (browsing.due shelves cutShort.restore) =
        [⟨0, ⟨"", "Cart"⟩⟩, ⟨1, ⟨"", "Cart"⟩⟩, ⟨0, ⟨"", "Cart"⟩⟩] := by
    decide +kernel
  exact ⟨hasked.1.trans hdue, by decide +kernel⟩

end Engine

end Recovery

end Replay
