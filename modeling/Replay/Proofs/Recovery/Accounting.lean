import Replay.Proofs.Decimal.Rounded
import Replay.Proofs.Recovery.Pass
set_option autoImplicit false

/-!
The accounts of a report add up. An issue that a turn was about is resolved if the accepted snapshot
shows no finding of its code, and else it remains; with one reading of the clock the two are decided
by the same look at the step (`resolved_add_remaining`), and the report sums over the turns.
-/

namespace Replay.Recovery

/-- The points are at most a hundred, also where the counts do not fit the significant bits. -/
theorem confidenceScore_le {found resolved : Nat} (h : resolved ≤ found) (strategies : Nat) :
    confidenceScore found resolved strategies ≤ 100 := by
  rw [confidenceScore]
  split
  · exact Nat.le_refl _
  · next hfound =>
    have hratio := Decimal.Rounded.atMost_div_ofNat (Nat.pos_of_ne_zero hfound) h
    have hpoints := Decimal.Rounded.atMost_ofNat (Nat.le_refl 80) (by decide)
    have hshare := hratio.mul hpoints (by decide)
    have hbonus := Decimal.Rounded.atMost_ofNat (Nat.min_le_right (strategies * 5) 20) (by decide)
    exact Nat.le_trans (Nat.min_le_left _ _) (hshare.add hbonus (by decide)).toNat_le

namespace Engine

theorem contains_hasIssue {r : StepReport} {i : Issue} (h : i ∈ r.issues) : r.hasIssue i.code :=
  List.any_eq_true.mpr ⟨i, h, beq_self_eq_true _⟩

/-- With one reading of the clock, each issue that a turn was about is resolved or remains. -/
theorem resolved_add_remaining {e : Engine} {now : Instant} (hclock : ∀ m, e.clock m = now)
    {script : Script} {c : Context} (hc : e.Shows script c) :
    c.issues.length = (e.recoverStep c).outcome.resolvedIssues +
      (e.unresolved (e.recoverStep c)).length := by
  rw [unresolved, foundIssues_recoverStep, index_recoverStep, List.length_map, hclock]
  obtain ⟨tried, strategy, rest, after, -, -, haccepts, heq⟩ | ⟨-, heq⟩ := e.recoverStep_ends c
  · obtain ⟨-, s, hs, rfl, -⟩ := accepts?_eq_some haccepts
    simp only [heq, hs, hclock, ← List.countP_eq_length_filter]
    rw [Nat.add_comm]
    simpa using List.length_eq_countP_add_countP fun i : Issue =>
      (validateStep e.limits now c.index { c.step with snapshot := some s }).hasIssue i.code
  · -- Nothing was accepted, so the step is as the survey found it and has all its issues.
    have hall : ∀ i ∈ c.issues, (validateStep e.limits now c.index c.step).hasIssue i.code := by
      intro i hi
      rw [hc.issues_eq, surveyed, hclock] at hi
      split at hi
      · cases hi
      · exact contains_hasIssue hi
    rw [heq, List.filter_eq_self.mpr hall, Nat.zero_add]

theorem resolvedIssues_le (e : Engine) (c : Context) :
    (e.recoverStep c).outcome.resolvedIssues ≤ (e.recoverStep c).outcome.foundIssues.length := by
  obtain ⟨tried, strategy, rest, after, -, -, -, heq⟩ | ⟨-, heq⟩ := e.recoverStep_ends c
  · rw [heq]
    exact List.countP_le_length
  · rw [heq]
    exact Nat.zero_le _

structure FirstUses (uses ids : List StrategyId) : Prop where
  mem_iff : ∀ id, id ∈ ids ↔ id ∈ uses
  ordered : ids.Pairwise fun a b => uses.idxOf a < uses.idxOf b

theorem FirstUses.nodup {uses ids : List StrategyId} (h : FirstUses uses ids) : ids.Nodup := by
  rw [List.nodup_iff_pairwise_ne]
  refine h.ordered.imp fun hlt heq => ?_
  rw [heq] at hlt
  exact Nat.lt_irrefl _ hlt

theorem FirstUses.add {uses ids : List StrategyId} (h : FirstUses uses ids) (id : StrategyId) :
    FirstUses (uses ++ [id]) (if ids.contains id then ids else ids ++ [id]) := by
  have hordered : ids.Pairwise fun a b => (uses ++ [id]).idxOf a < (uses ++ [id]).idxOf b := by
    refine h.ordered.imp_of_mem fun ha hb hlt => ?_
    rw [List.idxOf_append_of_mem ((h.mem_iff _).mp ha),
      List.idxOf_append_of_mem ((h.mem_iff _).mp hb)]
    exact hlt
  split
  · next hold =>
    have huses : id ∈ uses := (h.mem_iff id).mp (List.contains_iff_mem.mp hold)
    refine ⟨fun x => ?_, hordered⟩
    simp only [h.mem_iff, List.mem_append, List.mem_singleton]
    exact ⟨Or.inl, fun hx => hx.elim (fun hx => hx) fun hx => hx ▸ huses⟩
  · next hnew =>
    have huses : id ∉ uses := fun hmem => hnew (List.contains_iff_mem.mpr ((h.mem_iff id).mpr hmem))
    refine ⟨fun x => by simp only [List.mem_append, h.mem_iff], ?_⟩
    refine List.pairwise_append.mpr ⟨hordered, List.pairwise_singleton .., fun a ha b hb => ?_⟩
    obtain rfl := List.mem_singleton.mp hb
    have hmem := (h.mem_iff a).mp ha
    rw [List.idxOf_append_of_mem hmem, List.idxOf_append_of_notMem huses]
    exact Nat.lt_add_right _ (List.idxOf_lt_length_of_mem hmem)

theorem firstUses_applied (done : List Recovered) :
    FirstUses (done.filterMap (·.outcome.recoveredBy)) (applied done) := by
  have hfold (uses seen ids : List StrategyId) (h : FirstUses seen ids) :
      FirstUses (seen ++ uses)
        (uses.foldl (fun ids id => if ids.contains id then ids else ids ++ [id]) ids) := by
    induction uses generalizing seen ids with
    | nil => simpa using h
    | cons id uses ih => simpa using ih (seen ++ [id]) _ (h.add id)
  exact hfold _ [] [] ⟨fun _ => Iff.rfl, List.Pairwise.nil⟩

def leftovers (e : Engine) (script : Script) (o : StepOutcome) : List String :=
  (script.steps[o.index]?.map fun step => e.unresolved ⟨o, step, []⟩).getD []

/-- The totals of a report count its outcomes and nothing else. -/
structure Counts (e : Engine) (r : Report) : Prop where
  found_eq : r.foundIssues = total (r.stepOutcomes.map (·.foundIssues.length))
  resolved_eq : r.resolvedIssues = total (r.stepOutcomes.map (·.resolvedIssues))
  applied_uses : FirstUses (r.stepOutcomes.filterMap (·.recoveredBy)) r.appliedStrategies
  remaining_eq : r.remainingIssues = r.stepOutcomes.flatMap (e.leftovers r.recoveredScript)
  confidence_eq : r.confidenceScore =
    confidenceScore r.foundIssues r.resolvedIssues r.appliedStrategies.length
  recommendations_eq : r.recommendations =
    recommendations r.remainingIssues r.appliedStrategies r.foundIssues

theorem counts_summarize {e : Engine} {script : Script} {cs : List Context}
    (hcs : e.Enumerates script cs) (cancelled : Bool) :
    e.Counts (e.summarize script (cs.map e.recoverStep) cancelled) where
  found_eq := by simp only [summarize, List.map_map, Function.comp_def]
  resolved_eq := by simp only [summarize, List.map_map, Function.comp_def]
  applied_uses := by
    simpa only [summarize, List.filterMap_map, Function.comp_def] using
      firstUses_applied (cs.map e.recoverStep)
  remaining_eq := by
    simp only [summarize, List.flatMap_map]
    refine List.flatMap_congr fun c hc => ?_
    rw [leftovers, index_recoverStep, getElem?_replaceSteps_of_mem hcs hc]
    rfl
  confidence_eq := rfl
  recommendations_eq := rfl

structure Balanced (e : Engine) (r : Report) : Prop extends e.Counts r where
  conserved : r.foundIssues = r.resolvedIssues + r.remainingIssues.length
  resolved_le : ∀ o ∈ r.stepOutcomes, o.resolvedIssues ≤ o.foundIssues.length
  applied_nodup : r.appliedStrategies.Nodup
  confidence_le : r.confidenceScore ≤ 100
  confidence_of_none : r.foundIssues = 0 → r.confidenceScore = 100

/-- Whatever the strategies do and wherever a pass is cancelled: with one reading of the clock, the
accounts of its report add up. -/
theorem run_balanced (e : Engine) (now : Instant) (hclock : ∀ m, e.clock m = now)
    (cancelled : Progress → Bool) (script : Script) : e.Balanced (e.run cancelled script).1 := by
  obtain ⟨k, -, hrun⟩ := e.exists_run cancelled script
  have hcs := (e.enumerates_failing script).take k
  generalize (e.failing script).take k = cs at hrun hcs
  have hcounts := counts_summarize hcs (decide (k < (e.failing script).length))
  rw [← hrun] at hcounts
  have hle : ∀ r ∈ cs.map e.recoverStep,
      r.outcome.resolvedIssues ≤ r.outcome.foundIssues.length :=
    List.forall_mem_map.mpr fun c _ => e.resolvedIssues_le c
  have hsum : ∀ r ∈ cs.map e.recoverStep,
      r.outcome.foundIssues.length = r.outcome.resolvedIssues + (e.unresolved r).length :=
    List.forall_mem_map.mpr fun c hc => by
      rw [foundIssues_recoverStep]
      exact resolved_add_remaining hclock (hcs.shows c hc)
  refine ⟨hcounts, ?_, ?_, hcounts.applied_uses.nodup, ?_, ?_⟩
  all_goals
    rw [hrun, summarize]
    generalize cs.map e.recoverStep = done at hle hsum
  · rw [total_map_add hsum, length_flatMap]
  · exact List.forall_mem_map.mpr hle
  · exact confidenceScore_le (total_map_le hle) _
  · exact fun hnone => if_pos hnone

def halving : Engine where
  limits := { minSizeBytes := 16 }
  chain :=
    { links := [(.issue .invalidXmlFormat, ⟨.xmlRepair, fun _ =>
        ⟨.recovery .xmlRepair { content := "<hierarchy><node>" }, []⟩⟩)]
      fallback := .manualGuidance }
  now := ⟨0, 0⟩

def tornAndBare : Script where
  steps :=
    [{ id := "tap", locator := { textField := some "OK" }, snapshot := some { content := "<a>" } },
      { id := "bare" }]

theorem run_balanced_tornAndBare :
    (halving.run (fun _ => false) tornAndBare).1.foundIssues = 9 ∧
      (halving.run (fun _ => false) tornAndBare).1.resolvedIssues = 2 ∧
      (halving.run (fun _ => false) tornAndBare).1.remainingIssues.length = 7 ∧
      halving.Balanced (halving.run (fun _ => false) tornAndBare).1 := by
  have hbalanced := run_balanced halving ⟨0, 0⟩ (fun _ => rfl) (fun _ => false) tornAndBare
  have hfound : (halving.run (fun _ => false) tornAndBare).1.foundIssues = 9 := by decide +kernel
  have hresolved : (halving.run (fun _ => false) tornAndBare).1.resolvedIssues = 2 := by
    decide +kernel
  have hconserved := hbalanced.conserved
  exact ⟨hfound, hresolved, by omega, hbalanced⟩

end Engine

end Replay.Recovery
