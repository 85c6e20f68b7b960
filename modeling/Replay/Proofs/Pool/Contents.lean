import Replay.Pool
set_option autoImplicit false

/-!
What a pool holds, as a function from hashes to contents, and what it counts. Storing a snapshot
does one of two things (`store_cases`). Storing steps never takes a content away and never changes
one: it adds, under each hash that was free, the first content of a step with that hash
(`contentAt_storeSteps`).
-/

namespace Replay

def Step.inline (step : Step) : Option String :=
  (step.snapshot.filter (·.hasContent)).map (·.content)

theorem Step.inline_eq_some {step : Step} {c : String} :
    step.inline = some c ↔ ∃ s, step.snapshot = some s ∧ s.hasContent ∧ s.content = c := by
  simp [inline, Option.filter_eq_some_iff, and_assoc]

theorem Step.inline_eq_none {step : Step} :
    step.inline = none ↔ ∀ s, step.snapshot = some s → s.hasContent = false := by
  simp [inline, Option.filter_eq_none_iff]

namespace Pool

def contentAt (pool : Pool) (h : ContentHash) : Option String :=
  (Ordered.get? h pool).map (·.content)

@[simp] theorem contentAt_nil (h : ContentHash) : contentAt [] h = none := rfl

@[simp] theorem contentAt_insert_self (h : ContentHash) (e : PoolEntry) (pool : Pool) :
    contentAt (Ordered.insert h e pool) h = some e.content := by simp [contentAt]

@[simp] theorem contentAt_insert_of_ne {h other : ContentHash} (hne : other ≠ h) (e : PoolEntry)
    (pool : Pool) : contentAt (Ordered.insert h e pool) other = contentAt pool other := by
  simp [contentAt, hne]

def usageAt (pool : Pool) (h : ContentHash) : Nat :=
  ((Ordered.get? h pool).map (·.usageCount)).getD 0

@[simp] theorem usageAt_insert_self (h : ContentHash) (e : PoolEntry) (pool : Pool) :
    usageAt (Ordered.insert h e pool) h = e.usageCount := by simp [usageAt]

@[simp] theorem usageAt_insert_of_ne {h other : ContentHash} (hne : other ≠ h) (e : PoolEntry)
    (pool : Pool) : usageAt (Ordered.insert h e pool) other = usageAt pool other := by
  simp [usageAt, hne]

/-- Either another content has the hash and nothing changes, or no other has it, and then the pool
holds the content, counts one more reference to it, and the snapshot is stripped. -/
theorem store_cases (pool : Pool) (s : Snapshot) :
    ((∃ d, contentAt pool (.of s.content) = some d ∧ d ≠ s.content) ∧ store pool s = (pool, s)) ∨
    ((∀ d, contentAt pool (.of s.content) = some d → d = s.content) ∧
      ∃ e, store pool s = (Ordered.insert (.of s.content) e pool,
          { s with hash := .of s.content }.asReference) ∧ e.content = s.content ∧
        e.usageCount = min (usageAt pool (.of s.content) + 1) (UInt32.size - 1)) := by
  simp only [store]
  split
  · next e he =>
    split
    · next hsame =>
      exact Or.inr ⟨by simp [contentAt, he, hsame], use e, rfl, hsame, by simp [usageAt, he, use]⟩
    · next hother => exact Or.inl ⟨⟨e.content, by simp [contentAt, he], hother⟩, rfl⟩
  · next he => exact Or.inr ⟨by simp [contentAt, he], _, rfl, rfl, by simp [usageAt, he]⟩

theorem storeStep_cases (pool : Pool) (step : Step) :
    (step.inline = none ∧ storeStep pool step = (pool, step)) ∨
    ∃ s, step.snapshot = some s ∧ s.hasContent ∧ storeStep pool step =
      ((store pool s).1, { step with snapshot := some (store pool s).2 }) := by
  unfold storeStep
  split
  · next s hs =>
    split
    · next hc => exact Or.inr ⟨s, hs, hc, rfl⟩
    · next hc => exact Or.inl ⟨by simp [Step.inline, hs, hc], rfl⟩
  · next hs => exact Or.inl ⟨by simp [Step.inline, hs], rfl⟩

theorem content?_eq (pool : Pool) (s : Snapshot) :
    content? pool s = if s.hasContent || s.hash.isEmpty then none
      else (contentAt pool s.hash).filter s.hash.fits := by
  rw [content?, contentAt]
  split
  · rfl
  · cases Ordered.get? s.hash pool with
    | none => rfl
    | some e => by_cases hf : s.hash.fits e.content <;> simp [Option.filter_some, hf]

def firstWith (h : ContentHash) (steps : List Step) : Option String :=
  steps.findSome? fun step => step.inline.filter fun c => ContentHash.of c = h

/-- Only the hash of the stored content may gain an entry, and an entry that exists keeps its
content, also under a colliding hash. -/
theorem contentAt_store (pool : Pool) (s : Snapshot) (h : ContentHash) :
    contentAt (store pool s).1 h =
      (contentAt pool h).or ((some s.content).filter fun c => ContentHash.of c = h) := by
  obtain ⟨⟨d, hd, -⟩, hs⟩ | ⟨hsame, e, hs, he, -⟩ := store_cases pool s
  · by_cases hh : ContentHash.of s.content = h
    · simp [hs, ← hh, hd]
    · simp [hs, hh, Option.filter_some]
  · by_cases hh : ContentHash.of s.content = h
    · subst hh
      cases hat : contentAt pool (.of s.content) with
      | none => simp [hs, he, Option.filter_some]
      | some d => simp [hs, he, hsame d hat]
    · simp [hs, hh, Ne.symm hh, Option.filter_some]

theorem contentAt_storeStep (pool : Pool) (step : Step) (h : ContentHash) :
    contentAt (storeStep pool step).1 h = (contentAt pool h).or (firstWith h [step]) := by
  obtain ⟨hnone, hstep⟩ | ⟨s, hs, hc, hstep⟩ := storeStep_cases pool step
  · simp [hstep, firstWith, hnone]
  · have hinline : step.inline = some s.content := Step.inline_eq_some.mpr ⟨s, hs, hc, rfl⟩
    simp [hstep, firstWith, hinline, contentAt_store]

theorem contentAt_storeSteps (pool : Pool) (steps : List Step) (h : ContentHash) :
    contentAt (storeSteps pool steps).1 h = (contentAt pool h).or (firstWith h steps) := by
  induction steps generalizing pool with
  | nil => simp [storeSteps, firstWith]
  | cons step rest ih =>
    simp only [storeSteps, ih, contentAt_storeStep, Option.or_assoc]
    congr 1
    simp only [firstWith, List.findSome?_cons, List.findSome?_nil]
    cases step.inline.filter fun c => ContentHash.of c = h <;> simp

theorem contentAt_storeSteps_of_some {pool : Pool} {h : ContentHash} {c : String}
    (hc : contentAt pool h = some c) (steps : List Step) :
    contentAt (storeSteps pool steps).1 h = some c := by
  simp [contentAt_storeSteps, hc]

end Pool

end Replay
