import Replay.Proofs.Pool.Restoration
set_option autoImplicit false

/-!
Moving contents into the pool a second time. What the first pass leaves in a step is a content whose
hash another content has taken (`Pool.Settled`). Entries are never taken away, so the hash stays taken
however far the pool grows behind the step, and the second pass finds nothing to move and counts no
reference (`Script.optimize_optimize`).
-/

namespace Replay

namespace Pool

/-- Nothing is left to move: if the step carries a content, the pool holds another one under its
hash. -/
def Settled (pool : Pool) (step : Step) : Prop :=
  ∀ c, step.inline = some c → ∃ d, contentAt pool (.of c) = some d ∧ d ≠ c

theorem Settled.mono {pool larger : Pool} {step : Step} (h : Settled pool step)
    (hw : Within pool larger) : Settled larger step := by
  intro c hc
  obtain ⟨d, hd, hne⟩ := h c hc
  exact ⟨d, hw _ _ hd, hne⟩

theorem storeStep_of_settled {pool : Pool} {step : Step} (h : Settled pool step) :
    storeStep pool step = (pool, step) := by
  obtain ⟨-, hkept⟩ | ⟨s, hs, hc, hstep⟩ := storeStep_cases pool step
  · exact hkept
  · obtain ⟨d, hd, hne⟩ := h s.content (Step.inline_eq_some.mpr ⟨s, hs, hc, rfl⟩)
    obtain ⟨-, hkept⟩ | ⟨hsame, -⟩ := store_cases pool s
    · rw [hstep, hkept, ← hs]
    · exact absurd (hsame d hd) hne

theorem storeSteps_of_settled {pool : Pool} {steps : List Step}
    (h : ∀ step ∈ steps, Settled pool step) : storeSteps pool steps = (pool, steps) := by
  induction steps with
  | nil => rfl
  | cons step rest ih =>
    obtain ⟨hstep, hrest⟩ := List.forall_mem_cons.mp h
    simp only [storeSteps, storeStep_of_settled hstep, ih hrest]

theorem settled_storeStep (pool : Pool) (step : Step) :
    Settled (storeStep pool step).1 (storeStep pool step).2 := by
  intro c hc
  obtain ⟨hnone, hkept⟩ | ⟨s, hs, -, hstep⟩ := storeStep_cases pool step
  · rw [hkept, hnone] at hc
    cases hc
  · rw [hstep] at hc ⊢
    obtain ⟨t, ht, hcontent, rfl⟩ := Step.inline_eq_some.mp hc
    obtain rfl := Option.some.inj ht
    obtain ⟨htaken, hkept⟩ | ⟨-, e, hmoved, -⟩ := store_cases pool s
    · rwa [hkept]
    · rw [hmoved] at hcontent
      cases hcontent

/-- Every step is settled in the last pool of the pass, which has all that the pool had when the
step was looked at. -/
theorem settled_storeSteps (pool : Pool) (steps : List Step) :
    ∀ step ∈ (storeSteps pool steps).2, Settled (storeSteps pool steps).1 step := by
  induction steps generalizing pool with
  | nil => simp [storeSteps]
  | cons step rest ih =>
    simp only [storeSteps, List.forall_mem_cons]
    exact ⟨(settled_storeStep pool step).mono (within_storeSteps _ rest), ih _⟩

end Pool

namespace Script

def entries (s : Script) : Pool := s.pool.getD []

theorem entries_optimize (s : Script) :
    s.optimize.entries = (Pool.storeSteps s.entries s.steps).1 := by
  cases h : (Pool.storeSteps (s.pool.getD []) s.steps).1 with
  | nil => simp [entries, optimize, h]
  | cons pair rest => simp [entries, optimize, h]

/-- Moving contents into the pool a second time changes nothing, whatever the pool held before and
whichever contents collide. -/
theorem optimize_optimize (s : Script) : s.optimize.optimize = s.optimize := by
  have hagain : Pool.storeSteps s.optimize.entries s.optimize.steps =
      (s.optimize.entries, s.optimize.steps) := by
    refine Pool.storeSteps_of_settled fun step hstep => ?_
    rw [entries_optimize]
    exact Pool.settled_storeSteps _ _ step hstep
  rw [entries] at hagain
  rw [optimize, hagain, ← entries, entries_optimize]
  rfl

end Script

end Replay
