import Replay.Proofs.Pool.Contents
set_option autoImplicit false

/-!
Moving the contents of a script into its pool and back. No hash is assumed to be free of collisions,
and the pool that a script comes with may hold anything: a step whose hash is taken by another
content keeps its own, and entries of the pool never change their content.
-/

namespace Replay

def Step.bare (step : Step) : Step :=
  { step with snapshot := step.snapshot.map fun s => { s with content := "", hash := {} } }

namespace Pool

def Within (pool larger : Pool) : Prop :=
  ∀ h c, contentAt pool h = some c → contentAt larger h = some c

theorem Within.refl (pool : Pool) : Within pool pool := fun _ _ hc => hc

theorem within_storeSteps (pool : Pool) (steps : List Step) :
    Within pool (storeSteps pool steps).1 :=
  fun _ _ hc => contentAt_storeSteps_of_some hc steps

theorem Within.of_storeSteps {pool larger : Pool} {steps : List Step}
    (h : Within (storeSteps pool steps).1 larger) : Within pool larger :=
  fun _ _ hc => h _ _ (within_storeSteps pool steps _ _ hc)

theorem restoreSnapshot_of_hasContent {s : Snapshot} (h : s.hasContent) (pool : Pool) :
    restoreSnapshot pool s = s := by simp [restoreSnapshot, content?, h]

/-- A stored snapshot comes back from any pool that keeps what was stored; a reference then bears
the hash of its content. -/
theorem restoreSnapshot_store {pool larger : Pool} {s : Snapshot} (hs : s.hasContent)
    (hw : Within (store pool s).1 larger) :
    ∃ h, (h = s.hash ∨ h = ContentHash.of s.content) ∧
      restoreSnapshot larger (store pool s).2 = { s with hash := h } := by
  obtain ⟨-, hkept⟩ | ⟨-, e, hmoved, he, -⟩ := store_cases pool s
  · exact ⟨s.hash, Or.inl rfl, by rw [hkept, restoreSnapshot_of_hasContent hs]⟩
  · refine ⟨.of s.content, Or.inr rfl, ?_⟩
    rw [hmoved] at hw ⊢
    have hfound : contentAt larger (.of s.content) = some s.content :=
      hw _ _ (by rw [contentAt_insert_self, he])
    rw [restoreSnapshot, content?_eq]
    simp [Snapshot.asReference, Snapshot.hasContent, hfound, Option.filter_some]

theorem inline_restoreStep_of_some {pool : Pool} {step : Step} {c : String}
    (hc : step.inline = some c) : (restoreStep pool step).inline = some c := by
  obtain ⟨s, hs, hcont, rfl⟩ := Step.inline_eq_some.1 hc
  exact Step.inline_eq_some.2 ⟨s, by simp [restoreStep, hs, restoreSnapshot_of_hasContent hcont],
    hcont, rfl⟩

/-- What a step is after its way through the pool: a content of its own comes back, at most with
another hash; a reference is looked up in the pool. -/
def CameBack (pool : Pool) (step after : Step) : Prop :=
  (∃ s h, step.snapshot = some s ∧ s.hasContent ∧ (h = s.hash ∨ h = ContentHash.of s.content) ∧
    after = { step with snapshot := some { s with hash := h } }) ∨
  (step.inline = none ∧ after = restoreStep pool step)

theorem cameBack_storeStep {pool larger : Pool} {step : Step}
    (hw : Within (storeStep pool step).1 larger) :
    CameBack larger step (restoreStep larger (storeStep pool step).2) := by
  obtain ⟨hnone, hkept⟩ | ⟨s, hs, hc, hstep⟩ := storeStep_cases pool step
  · exact Or.inr ⟨hnone, by rw [hkept]⟩
  · rw [hstep] at hw ⊢
    obtain ⟨h, hh, hr⟩ := restoreSnapshot_store hc hw
    exact Or.inl ⟨s, h, hs, hc, hh, by simp [restoreStep, hr]⟩

/-- The steps of a script after the pass, read at one index. The pool changes from step to step;
all that matters is that the last one keeps what each of them held. -/
theorem cameBack_storeSteps {pool larger : Pool} {steps : List Step}
    (hw : Within (storeSteps pool steps).1 larger) {i : Nat} {step : Step}
    (hi : steps[i]? = some step) :
    ∃ after, ((storeSteps pool steps).2.map (restoreStep larger))[i]? = some after ∧
      CameBack larger step after := by
  induction steps generalizing pool i with
  | nil => simp at hi
  | cons first rest ih =>
    simp only [storeSteps] at hw ⊢
    cases i with
    | zero =>
      obtain rfl : first = step := by simpa using hi
      exact ⟨_, by simp, cameBack_storeStep hw.of_storeSteps⟩
    | succ i =>
      obtain ⟨after, ha, hb⟩ := ih hw (by simpa using hi)
      exact ⟨after, by simpa using ha, hb⟩

theorem length_storeSteps (pool : Pool) (steps : List Step) :
    (storeSteps pool steps).2.length = steps.length := by
  induction steps generalizing pool with
  | nil => rfl
  | cons step rest ih => simp [storeSteps, ih]

@[simp] theorem bare_restoreStep (pool : Pool) (step : Step) :
    (restoreStep pool step).bare = step.bare := by
  have h (s : Snapshot) : ({ restoreSnapshot pool s with content := "", hash := {} } : Snapshot) =
      { s with content := "", hash := {} } := by
    unfold restoreSnapshot
    split <;> rfl
  simp [Step.bare, restoreStep, Function.comp_def, h]

theorem CameBack.bare {pool : Pool} {step after : Step} (h : CameBack pool step after) :
    after.bare = step.bare := by
  obtain ⟨s, hash, hs, -, -, rfl⟩ | ⟨-, rfl⟩ := h
  · simp [Step.bare, hs]
  · simp

theorem CameBack.inline {pool : Pool} {step after : Step} (h : CameBack pool step after)
    {c : String} (hc : step.inline = some c) : after.inline = some c := by
  obtain ⟨s, hash, hs, hcont, -, rfl⟩ | ⟨hnone, -⟩ := h
  · rw [Step.inline_eq_some] at hc ⊢
    obtain ⟨t, ht, -, rfl⟩ := hc
    obtain rfl : s = t := by simpa [hs] using ht
    exact ⟨_, rfl, hcont, rfl⟩
  · simp [hnone] at hc

theorem CameBack.eq_restoreStep {pool : Pool} {step after : Step} (h : CameBack pool step after)
    (hnone : step.inline = none) : after = restoreStep pool step := by
  obtain ⟨s, hash, hs, hc, -, -⟩ | ⟨-, rfl⟩ := h
  · have := Step.inline_eq_none.1 hnone s hs
    simp [hc] at this
  · rfl

theorem CameBack.eq_of_own {pool : Pool} {step after : Step} (h : CameBack pool step after)
    (hown : ∀ t, step.snapshot = some t → t.hash = .ofContent t.content) : after = step := by
  obtain ⟨s, hash, hs, hc, hh, rfl⟩ | ⟨hnone, rfl⟩ := h
  · have hof : s.hash = .of s.content := by
      have hne : s.content ≠ "" := by simpa [Snapshot.hasContent] using hc
      simpa [ContentHash.ofContent, hne] using hown s hs
    obtain rfl : hash = s.hash := by
      rcases hh with rfl | rfl
      · rfl
      · exact hof.symm
    change { step with snapshot := some s } = step
    rw [← hs]
  · cases hs : step.snapshot with
    | none =>
      cases step
      simp_all [restoreStep]
    | some s =>
      have hempty : s.content = "" := by
        simpa [Snapshot.hasContent] using Step.inline_eq_none.1 hnone s hs
      have hhash : s.hash.isEmpty := by
        simp [hown s hs, hempty, ContentHash.ofContent, ContentHash.isEmpty]
      have hsame : restoreSnapshot pool s = s := by simp [restoreSnapshot, content?_eq, hhash]
      cases step
      simp_all [restoreStep]

theorem inline_restoreStep {pool : Pool} {step : Step} (hnone : step.inline = none) {c : String} :
    (restoreStep pool step).inline = some c ↔
      c ≠ "" ∧ ∃ s, step.snapshot = some s ∧ s.hash = .of c ∧ contentAt pool s.hash = some c := by
  cases hs : step.snapshot with
  | none => simp [Step.inline, restoreStep, hs]
  | some s =>
    have hcont : s.hasContent = false := Step.inline_eq_none.1 hnone s hs
    have hempty : s.content = "" := by simpa [Snapshot.hasContent] using hcont
    have hfits (d : String) : s.hash.isEmpty = false ∧ s.hash.fits d ↔ s.hash = .of d := by
      constructor
      · rintro ⟨-, hf⟩
        simpa [ContentHash.fits] using (Bool.and_eq_true_iff.1 hf).2
      · intro he
        simp [he]
    have hfound : content? pool s = some c ↔ s.hash = .of c ∧ contentAt pool s.hash = some c := by
      rw [content?_eq, ← hfits]
      cases s.hash.isEmpty <;> simp [hcont, Option.filter_eq_some_iff, and_comm]
    simp only [Step.inline_eq_some, restoreStep, hs, Option.map_some, Option.some.injEq,
      exists_eq_left', ← hfound, restoreSnapshot]
    cases content? pool s with
    | none => simp [hcont]
    | some d =>
      simp only [Snapshot.hasContent, Option.some.injEq]
      constructor
      · rintro ⟨hd, rfl⟩
        exact ⟨by simpa using hd, rfl⟩
      · rintro ⟨hd, rfl⟩
        exact ⟨by simpa using hd, rfl⟩

@[simp] theorem restoreStep_nil : restoreStep [] = id := by
  have h : restoreSnapshot [] = id := by
    funext s
    simp [restoreSnapshot, content?_eq]
  funext step
  simp [restoreStep, h]

end Pool

namespace Script

theorem steps_restore (s : Script) :
    s.restore.steps = s.steps.map (Pool.restoreStep (s.pool.getD [])) := by
  unfold restore
  split
  · next pool hp => simp [hp]
  · next hp => simp [hp]

theorem steps_restore_optimize (s : Script) :
    s.optimize.restore.steps =
      (Pool.storeSteps (s.pool.getD []) s.steps).2.map
        (Pool.restoreStep (Pool.storeSteps (s.pool.getD []) s.steps).1) := by
  rw [steps_restore]
  unfold optimize
  generalize Pool.storeSteps (s.pool.getD []) s.steps = stored
  obtain ⟨_ | _, steps⟩ := stored <;> rfl

theorem restore_optimize_frame (s : Script) :
    s.optimize.restore.pool = none ∧ s.optimize.restore.name = s.name ∧
      s.optimize.restore.version = s.version ∧ s.optimize.restore.metadata = s.metadata := by
  refine ⟨pool_restore _, ?_⟩
  unfold restore
  split <;> simp [optimize]

theorem cameBack_restore_optimize {s : Script} {i : Nat} {step : Step}
    (hi : s.steps[i]? = some step) :
    ∃ after, s.optimize.restore.steps[i]? = some after ∧
      Pool.CameBack (Pool.storeSteps (s.pool.getD []) s.steps).1 step after := by
  rw [steps_restore_optimize]
  exact Pool.cameBack_storeSteps (Pool.Within.refl _) hi

theorem length_restore_optimize (s : Script) :
    s.optimize.restore.steps.length = s.steps.length := by
  simp [steps_restore_optimize, Pool.length_storeSteps]

theorem bare_restore_optimize (s : Script) :
    s.optimize.restore.steps.map Step.bare = s.steps.map Step.bare := by
  apply List.ext_getElem?
  intro i
  cases hi : s.steps[i]? with
  | none =>
    have hlen := length_restore_optimize s
    rw [List.getElem?_eq_none_iff] at hi
    simp [hi, hlen]
  | some step =>
    obtain ⟨after, ha, hb⟩ := cameBack_restore_optimize hi
    simp [hi, ha, hb.bare]

theorem inline_of_inline_restore {s : Script} {step : Step} (hnone : step.inline = none)
    {c : String} (hc : (Pool.restoreStep (s.pool.getD []) step).inline = some c) :
    (Pool.restoreStep (Pool.storeSteps (s.pool.getD []) s.steps).1 step).inline = some c := by
  rw [Pool.inline_restoreStep hnone] at hc ⊢
  obtain ⟨hne, t, ht, hh, hat⟩ := hc
  exact ⟨hne, t, ht, hh, Pool.contentAt_storeSteps_of_some hat _⟩

theorem gained_from_step {s : Script} {step : Step} (hnone : step.inline = none)
    (hbefore : (Pool.restoreStep (s.pool.getD []) step).inline = none) {c : String}
    (hc : (Pool.restoreStep (Pool.storeSteps (s.pool.getD []) s.steps).1 step).inline = some c) :
    ∃ t other, step.snapshot = some t ∧ t.hash = .of c ∧ other ∈ s.steps ∧
      other.inline = some c := by
  obtain ⟨hne, t, ht, hh, hat⟩ := (Pool.inline_restoreStep hnone).1 hc
  rw [Pool.contentAt_storeSteps, Option.or_eq_some_iff] at hat
  obtain hat | ⟨-, hfirst⟩ := hat
  · have := (Pool.inline_restoreStep hnone).2 ⟨hne, t, ht, hh, hat⟩
    simp [this] at hbefore
  · obtain ⟨other, hother, hin⟩ := List.exists_of_findSome?_eq_some hfirst
    exact ⟨t, other, ht, hh, hother, (Option.filter_eq_some_iff.1 hin).1⟩

/-- Every snapshot bears the hash of its content, and none without content. -/
def HashesOwn (s : Script) : Prop :=
  ∀ step ∈ s.steps, ∀ t, step.snapshot = some t → t.hash = .ofContent t.content

theorem restore_optimize_of_hashesOwn {s : Script} (hp : s.pool = none) (hown : s.HashesOwn) :
    s.optimize.restore = s := by
  have hsteps : s.optimize.restore.steps = s.steps := by
    apply List.ext_getElem?
    intro i
    cases hi : s.steps[i]? with
    | none =>
      rw [List.getElem?_eq_none_iff] at hi ⊢
      rwa [length_restore_optimize]
    | some step =>
      obtain ⟨after, ha, hb⟩ := cameBack_restore_optimize hi
      rw [ha, hb.eq_of_own (hown step (List.mem_of_getElem? hi))]
  obtain ⟨hpool, hname, hversion, hmeta⟩ := restore_optimize_frame s
  generalize s.optimize.restore = r at *
  cases r
  cases s
  simp_all

/-- The way through the pool loses nothing. Every content comes back where it was, and so does
every content that the script's own pool would have restored. A reference beyond these gains a
content only from another step that has it under the same hash. All else stays, the pool aside, and
a script whose hashes are its own comes back as a whole. -/
theorem restore_optimize_lossless (s : Script) :
    (s.optimize.restore.pool = none ∧ s.optimize.restore.name = s.name ∧
      s.optimize.restore.version = s.version ∧ s.optimize.restore.metadata = s.metadata ∧
      s.optimize.restore.steps.map Step.bare = s.steps.map Step.bare) ∧
    (∀ (i : Nat) (step : Step), s.steps[i]? = some step →
      ∃ before after, s.restore.steps[i]? = some before ∧
        s.optimize.restore.steps[i]? = some after ∧
        (∀ c, step.inline = some c → after.inline = some c) ∧
        (∀ c, before.inline = some c → after.inline = some c) ∧
        (∀ c, step.inline = none → before.inline = none → after.inline = some c →
          ∃ t j other, step.snapshot = some t ∧ t.hash = .of c ∧ j ≠ i ∧
            s.steps[j]? = some other ∧ other.inline = some c)) ∧
    (s.pool = none → s.HashesOwn → s.optimize.restore = s) := by
  obtain ⟨hpool, hname, hversion, hmeta⟩ := restore_optimize_frame s
  refine ⟨⟨hpool, hname, hversion, hmeta, bare_restore_optimize s⟩, ?_,
    restore_optimize_of_hashesOwn⟩
  intro i step hi
  obtain ⟨after, ha, hb⟩ := cameBack_restore_optimize hi
  refine ⟨Pool.restoreStep (s.pool.getD []) step, after, by simp [steps_restore, hi], ha,
    fun c => hb.inline, ?_, ?_⟩
  · intro c hc
    cases hin : step.inline with
    | some d =>
      -- A content of its own is what both ways yield.
      rw [hb.inline hin, ← hc, Pool.inline_restoreStep_of_some hin]
    | none =>
      rw [hb.eq_restoreStep hin]
      exact inline_of_inline_restore hin hc
  · intro c hin hbefore hc
    rw [hb.eq_restoreStep hin] at hc
    obtain ⟨t, other, ht, hh, hother, hsame⟩ := gained_from_step hin hbefore hc
    obtain ⟨j, hj⟩ := List.mem_iff_getElem?.1 hother
    refine ⟨t, j, other, ht, hh, ?_, hj, hsame⟩
    rintro rfl
    obtain rfl : step = other := by simpa [hi] using hj
    simp [hin] at hsame

def danglingPair (content : String) : Script where
  steps := [{ id := "a", snapshot := some { content } },
    { id := "b", snapshot := some { hash := .of content } }]

theorem inline_danglingPair (content : String) (h : content ≠ "") :
    ((danglingPair content).restore.steps[1]?.bind Step.inline) = none ∧
      ((danglingPair content).optimize.restore.steps[1]?.bind Step.inline) = some content := by
  constructor
  · simp [danglingPair, restore, Step.inline, Snapshot.hasContent]
  · simp [danglingPair, optimize, restore, Pool.storeSteps, Pool.storeStep, Pool.store,
      Snapshot.hasContent, Snapshot.asReference, Ordered.get?, Ordered.insert, Pool.restoreStep,
      Pool.restoreSnapshot, Pool.content?, Step.inline, Option.filter_some, h]

def soundSingle : Script where
  steps := [{ id := "a", snapshot := some (Snapshot.withContent {} "<a/>") }]

theorem restore_optimize_lossless_pair :
    (∃ after, (danglingPair "<a/>").optimize.restore.steps[0]? = some after ∧
      after.inline = some "<a/>") ∧
    (∃ j other, j ≠ 1 ∧ (danglingPair "<a/>").steps[j]? = some other ∧
      other.inline = some "<a/>") ∧
    soundSingle.optimize.restore = soundSingle := by
  refine ⟨?_, ?_, (restore_optimize_lossless soundSingle).2.2 rfl ?_⟩
  · obtain ⟨-, after, -, ha, hin, -⟩ :=
      (restore_optimize_lossless (danglingPair "<a/>")).2.1 0 _ rfl
    exact ⟨after, ha, hin _ (by decide)⟩
  · obtain ⟨before, after, hb, ha, -, -, hgain⟩ :=
      (restore_optimize_lossless (danglingPair "<a/>")).2.1 1 _ rfl
    obtain ⟨hbefore, hafter⟩ := inline_danglingPair "<a/>" (by decide)
    rw [ha] at hafter
    rw [hb] at hbefore
    obtain ⟨t, j, other, -, -, hj, hother, hin⟩ := hgain "<a/>" (by decide) hbefore hafter
    exact ⟨j, other, hj, hother, hin⟩
  · intro step hstep t ht
    obtain rfl := List.mem_singleton.1 hstep
    obtain rfl := Option.some.inj ht
    simp [Snapshot.withContent, ContentHash.ofContent]

end Script

end Replay
