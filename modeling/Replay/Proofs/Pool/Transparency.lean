import Replay.Proofs.Exchange
import Replay.Recovery.Engine
set_option autoImplicit false

/-!
Whoever looks at a script sees the same before and after its contents went into the pool, as long as
its references stay within its own pool (`Script.RefersWithin`). Putting the contents back may leave
another hash on a snapshot with content (`unhashed_restore_optimize`), which validation does not look
at; recovery does, in the script that it returns.
-/

namespace Replay

def Step.unhashed (step : Step) : Step :=
  { step with snapshot := step.snapshot.map fun s => { s with hash := {} } }

namespace Pool

theorem restoreSnapshot_of_within {pool larger : Pool} {s : Snapshot}
    (hw : Within pool larger)
    (hs : s.hasContent = false → s.hash.isEmpty ∨ (contentAt pool s.hash).isSome) :
    restoreSnapshot larger s = restoreSnapshot pool s := by
  cases hc : s.hasContent with
  | true => rw [restoreSnapshot_of_hasContent hc, restoreSnapshot_of_hasContent hc]
  | false =>
    have hsame : content? larger s = content? pool s := by
      obtain hempty | hknown := hs hc
      · simp [content?_eq, hempty]
      · obtain ⟨c, hat⟩ := Option.isSome_iff_exists.1 hknown
        simp [content?_eq, hat, hw _ _ hat]
    rw [restoreSnapshot, restoreSnapshot, hsame]

theorem CameBack.unhashed {pool : Pool} {step after : Step} (h : CameBack pool step after) :
    after.unhashed = (restoreStep pool step).unhashed := by
  obtain ⟨s, hash, hs, hc, -, rfl⟩ | ⟨-, rfl⟩ := h
  · simp [Step.unhashed, restoreStep, hs, restoreSnapshot_of_hasContent hc]
  · rfl

theorem CameBack.eq_restoreStep_of_own {pool : Pool} {step after : Step}
    (h : CameBack pool step after)
    (hown : ∀ t, step.snapshot = some t → t.hasContent → t.hash = .of t.content) :
    after = restoreStep pool step := by
  obtain ⟨s, hash, hs, hc, hh, rfl⟩ | ⟨-, rfl⟩ := h
  · obtain rfl : hash = s.hash := by
      obtain rfl | rfl := hh
      · rfl
      · exact (hown s hs hc).symm
    simp [restoreStep, hs, restoreSnapshot_of_hasContent hc]
  · rfl

end Pool

theorem validateSnapshot_rehashed (limits : Limits) (now : Instant) (s : Snapshot)
    (hash : ContentHash) :
    validateSnapshot limits now { s with hash } = validateSnapshot limits now s := by
  have hpasses (c : Check) : (Examination.of limits now { s with hash }).passes c =
      (Examination.of limits now s).passes c := by
    cases c <;> rfl
  have hfinding (c : Check) : (Examination.of limits now { s with hash }).finding c =
      (Examination.of limits now s).finding c := by
    cases c <;> rfl
  simp only [validateSnapshot, Examination.report, Examination.severity, Examination.score,
    funext hpasses, funext hfinding]
  rfl

theorem validateStep_unhashed (limits : Limits) (now : Instant) (i : Nat) (step : Step) :
    validateStep limits now i step.unhashed = validateStep limits now i step := by
  simp [validateStep, Step.unhashed, Function.comp_def, validateSnapshot_rehashed]

theorem validateSteps_of_unhashed {steps others : List Step}
    (h : steps.map Step.unhashed = others.map Step.unhashed) (limits : Limits) (now : Instant) :
    validateSteps limits now steps = validateSteps limits now others := by
  have hsees (steps : List Step) : validateSteps limits now steps =
      validateSteps limits now (steps.map Step.unhashed) := by
    apply List.ext_getElem? fun i => ?_
    simp [validateSteps, Function.comp_def, validateStep_unhashed]
  rw [hsees steps, h, ← hsees]

namespace Script

/-- A snapshot without content refers to nothing, or to an entry of the script's own pool, whatever
that entry holds. -/
def RefersWithin (s : Script) : Prop :=
  ∀ step ∈ s.steps, ∀ t, step.snapshot = some t → t.hasContent = false →
    t.hash.isEmpty ∨ (Ordered.get? t.hash (s.pool.getD [])).isSome

/-- Every snapshot with content bears its hash; a reference may bear any. -/
def ContentsOwn (s : Script) : Prop :=
  ∀ step ∈ s.steps, ∀ t, step.snapshot = some t → t.hasContent → t.hash = .of t.content

/-- The script was read from a text as it stands there, or had its contents put back then. -/
def IsRead (s : Script) : Prop :=
  ∃ text j, Json.parse? text = some j ∧ (ofJson? j = some s ∨ (ofJson? j).map restore = some s)

theorem IsRead.portable {s : Script} (h : s.IsRead) : s.Portable 121 := by
  obtain ⟨text, j, hj, hs | hs⟩ := h
  · exact portable_of_json (Json.result_of_parse hj) hs
  · obtain ⟨pooled, hpooled, rfl⟩ := Option.map_eq_some_iff.1 hs
    exact (portable_of_json (Json.result_of_parse hj) hpooled).restore

theorem Portable.isRead {s : Script} (h : s.Portable 121) (hint : s.Integral) : s.IsRead := by
  obtain ⟨hparse, hread⟩ := parse?_pretty h hint
  exact ⟨_, _, hparse, Or.inl hread⟩

theorem restore_frame (s : Script) :
    s.restore.name = s.name ∧ s.restore.version = s.version ∧ s.restore.metadata = s.metadata := by
  unfold restore
  split <;> simp

theorem summarize_of_frame {s other : Script} (hversion : s.version = other.version)
    (hmetadata : s.metadata = other.metadata) : summarize s = summarize other := by
  cases s
  cases other
  obtain rfl : _ = _ := hversion
  obtain rfl : _ = _ := hmetadata
  rfl

/-- What is read off a step and does not tell its two ways back apart is the same on the whole
script. -/
theorem map_restore_optimize {s : Script} (h : s.RefersWithin) {α : Type} {f : Step → α}
    (hf : ∀ pool step after, step ∈ s.steps → Pool.CameBack pool step after →
      f after = f (Pool.restoreStep pool step)) :
    s.optimize.restore.steps.map f = s.restore.steps.map f := by
  have hwithin := Pool.within_storeSteps (s.pool.getD []) s.steps
  apply List.ext_getElem? fun i => ?_
  cases hi : s.steps[i]? with
  | none =>
    have hlen := length_restore_optimize s
    rw [List.getElem?_eq_none_iff] at hi
    simp [hi, hlen, steps_restore s]
  | some step =>
    have hstep := List.mem_of_getElem? hi
    obtain ⟨after, hafter, hback⟩ := cameBack_restore_optimize hi
    have hsame : Pool.restoreStep (Pool.storeSteps (s.pool.getD []) s.steps).1 step =
        Pool.restoreStep (s.pool.getD []) step := by
      cases hs : step.snapshot with
      | none => simp [Pool.restoreStep, hs]
      | some t =>
        have hknown := fun hc => h step hstep t hs hc
        simp only [Pool.restoreStep, hs, Option.map_some]
        rw [Pool.restoreSnapshot_of_within hwithin (by simpa [Pool.contentAt] using hknown)]
    simp [hafter, hf _ _ _ hstep hback, hsame, steps_restore s, hi]

theorem unhashed_restore_optimize {s : Script} (h : s.RefersWithin) :
    s.optimize.restore.steps.map Step.unhashed = s.restore.steps.map Step.unhashed :=
  map_restore_optimize h fun _ _ _ _ hback => hback.unhashed

theorem restore_optimize_of_contentsOwn {s : Script} (h : s.RefersWithin) (hown : s.ContentsOwn) :
    s.optimize.restore = s.restore := by
  have hsteps : s.optimize.restore.steps.map id = s.restore.steps.map id :=
    map_restore_optimize h fun _ step _ hstep hback => hback.eq_restoreStep_of_own (hown step hstep)
  obtain ⟨hpool, hname, hversion, hmetadata⟩ := restore_optimize_frame s
  obtain ⟨hname', hversion', hmetadata'⟩ := restore_frame s
  have hpool' := pool_restore s
  generalize s.optimize.restore = after at *
  generalize s.restore = before at *
  cases after
  cases before
  simp_all

theorem validateScript_optimize {s : Script} (h : s.RefersWithin) (limits : Limits)
    (now : Instant) : validateScript limits now s.optimize = validateScript limits now s := by
  obtain ⟨-, -, hversion, hmetadata⟩ := restore_optimize_frame s
  obtain ⟨-, hversion', hmetadata'⟩ := restore_frame s
  simp only [validateScript]
  rw [validateSteps_of_unhashed (unhashed_restore_optimize h),
    summarize_of_frame (hversion.trans hversion'.symm) (hmetadata.trans hmetadata'.symm)]

/-- Pooling is transparent. Validation reports the same on the pooled script, and on its portable
text once it was read from one; recovery returns the same from it, if contents bear their own
hashes. Entries of the pool may be unused, or hold what does not have the hash they stand under. -/
theorem pooling_transparent {s : Script} (h : s.RefersWithin) :
    (∀ limits now, validateScript limits now s.optimize = validateScript limits now s) ∧
    (s.IsRead → s.Integral → ∀ limits now,
      validateText limits now s.exportText = validateScript limits now s) ∧
    (s.ContentsOwn → ∀ (e : Recovery.Engine) cancelled,
      e.run cancelled s.optimize = e.run cancelled s) := by
  refine ⟨validateScript_optimize h, fun hread hint limits now => ?_, fun hown e cancelled => ?_⟩
  · have htext : ofText s.exportText = .ok s.optimize :=
      ofText_pretty hread.portable.optimize hint.optimize
    rw [validateText, htext]
    exact validateScript_optimize h limits now
  · simp only [Recovery.Engine.run, restore_optimize_of_contentsOwn h hown]

def sharedPage : Script where
  steps := [{ id := "open", snapshot := some { content := "<a/>", hash := .of "<a/>" } },
    { id := "pay", snapshot := some { hash := .of "<a/>" } }]
  pool := some [(.of "<a/>", ⟨"<a/>", none, 1⟩)]

theorem integral_sharedPage : sharedPage.Integral where
  steps := fun step hstep => by
    simp only [sharedPage, List.mem_cons, List.not_mem_nil, or_false] at hstep
    obtain rfl | rfl := hstep <;> exact .object nofun
  metadata := nofun

theorem portable_sharedPage : sharedPage.Portable 121 where
  steps := fun step hstep => by
    have hparams : (Json.object []).Result 124 :=
      ⟨.object nofun, .object .nil nofun⟩
    have hshown (content : String) :
        Snapshot.Portable { content, hash := .of "<a/>" } :=
      ⟨ContentHash.isLower_of _, nofun, Device.portable_default, Page.portable_default, nofun⟩
    simp only [sharedPage, List.mem_cons, List.not_mem_nil, or_false] at hstep
    obtain rfl | rfl := hstep
    · exact ⟨hparams, fun t ht => Option.some.inj ht ▸ hshown "<a/>"⟩
    · exact ⟨hparams, fun t ht => Option.some.inj ht ▸ hshown ""⟩
  pool := fun p hp => by
    obtain rfl := Option.some.inj hp
    refine ⟨List.pairwise_singleton _ _, fun pair hpair => ?_, fun pair hpair => ?_⟩
    · obtain rfl := List.mem_singleton.1 hpair
      exact ContentHash.isLower_of _
    · obtain rfl := List.mem_singleton.1 hpair
      exact ⟨nofun, by decide⟩
  metadata := nofun

theorem pooling_transparent_sharedPage :
    sharedPage.RefersWithin ∧ sharedPage.IsRead ∧ sharedPage.Integral ∧ sharedPage.ContentsOwn ∧
      validateScript {} ⟨0, 0⟩ sharedPage.optimize = validateScript {} ⟨0, 0⟩ sharedPage ∧
      validateText {} ⟨0, 0⟩ sharedPage.exportText = validateScript {} ⟨0, 0⟩ sharedPage ∧
      (Recovery.Engine.standard {} [] ⟨0, 0⟩).run (fun _ => false) sharedPage.optimize =
        (Recovery.Engine.standard {} [] ⟨0, 0⟩).run (fun _ => false) sharedPage := by
  have hrefers : sharedPage.RefersWithin := by
    intro step hstep t ht hc
    simp only [sharedPage, List.mem_cons, List.not_mem_nil, or_false] at hstep
    obtain rfl | rfl := hstep
    · obtain rfl := Option.some.inj ht
      cases hc
    · obtain rfl := Option.some.inj ht
      exact Or.inr (by simp [sharedPage, Ordered.get?])
  have hown : sharedPage.ContentsOwn := by
    intro step hstep t ht hc
    simp only [sharedPage, List.mem_cons, List.not_mem_nil, or_false] at hstep
    obtain rfl | rfl := hstep
    · obtain rfl := Option.some.inj ht
      rfl
    · obtain rfl := Option.some.inj ht
      cases hc
  have hread : sharedPage.IsRead := portable_sharedPage.isRead integral_sharedPage
  obtain ⟨hscript, htext, hrun⟩ := pooling_transparent hrefers
  exact ⟨hrefers, hread, integral_sharedPage, hown, hscript _ _,
    htext hread integral_sharedPage _ _, hrun hown _ _⟩

end Script

end Replay
