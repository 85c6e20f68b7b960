import Mathlib.Data.Finset.Card
import Replay.Proofs.Digest
import Replay.Proofs.Ordered
import Replay.Proofs.Pool.Idempotence
set_option autoImplicit false

/-!
The counts of a pool. A script is accounted for if every entry stands under its own hash and counts
the steps that refer to it, every reference leads to an entry, and contents that share a hash are the
same (`Script.Accounted`). Moving contents into the pool keeps the account: each content that leaves
a step is one more use of its entry and one more reference (`Pool.usageAt_storeSteps`,
`Pool.reference_storeSteps`), also where the entry was there before. So the sums over the pool are
counts of contents and of steps (`Script.optimize_accounted`).
-/

namespace Replay

namespace Step

/-- The hash by which a step without content refers to the pool; the empty hash refers to nothing. -/
def reference (step : Step) : Option ContentHash :=
  (step.snapshot.filter fun s => !s.hasContent && !s.hash.isEmpty).map (·.hash)

def stored (step : Step) : Option ContentHash := step.inline.map .of

theorem reference_of_inline {step : Step} {c : String} (h : step.inline = some c) :
    step.reference = none := by
  obtain ⟨s, hs, hc, -⟩ := Step.inline_eq_some.mp h
  simp [reference, hs, hc, Option.filter_some]

/-- A step uses one hash at most: that of its content, or else the one that it refers to. -/
theorem countP_uses (h : ContentHash) (steps : List Step) :
    steps.countP (fun step => step.reference.or step.stored == some h) =
      steps.countP (·.reference == some h) + steps.countP (·.stored == some h) := by
  induction steps with
  | nil => rfl
  | cons step rest ih =>
    have hone : (if step.reference.or step.stored == some h then 1 else 0) =
        (if step.reference == some h then 1 else 0) + if step.stored == some h then 1 else 0 := by
      cases hin : step.inline with
      | none => simp [stored, hin]
      | some c => simp [reference_of_inline hin]
    simp only [List.countP_cons, ih, hone]
    omega

end Step

namespace Pool

def Fits (pool : Pool) (steps : List Step) : Prop :=
  ∀ step ∈ steps, ∀ c, step.inline = some c → contentAt (storeSteps pool steps).1 (.of c) = some c

theorem Fits.cons {pool : Pool} {step : Step} {rest : List Step} (h : Fits pool (step :: rest)) :
    (∀ c, step.inline = some c → ∀ d, contentAt pool (.of c) = some d → d = c) ∧
      Fits (storeStep pool step).1 rest := by
  obtain ⟨hstep, hrest⟩ := List.forall_mem_cons.mp h
  refine ⟨fun c hc d hd => ?_, hrest⟩
  have hlast := contentAt_storeSteps_of_some hd (step :: rest)
  exact Option.some.inj (hlast.symm.trans (hstep c hc))

section Step

variable {pool : Pool} {step : Step}
  (hfits : ∀ c, step.inline = some c → ∀ d, contentAt pool (.of c) = some d → d = c)
include hfits

theorem storeStep_of_fits : (step.inline = none ∧ storeStep pool step = (pool, step)) ∨
    ∃ (s : Snapshot) (e : PoolEntry), step.inline = some s.content ∧ storeStep pool step =
        (Ordered.insert (.of s.content) e pool,
          { step with snapshot := some { s with hash := .of s.content }.asReference }) ∧
      e.usageCount = min (usageAt pool (.of s.content) + 1) (UInt32.size - 1) := by
  obtain hkept | ⟨s, hs, hc, hstep⟩ := storeStep_cases pool step
  · exact Or.inl hkept
  · have hinline : step.inline = some s.content := Step.inline_eq_some.mpr ⟨s, hs, hc, rfl⟩
    obtain ⟨⟨d, hd, hne⟩, -⟩ | ⟨-, e, hmoved, -, huses⟩ := store_cases pool s
    · exact absurd (hfits _ hinline d hd) hne
    · exact Or.inr ⟨s, e, hinline, by rw [hstep, hmoved], huses⟩

theorem inline_storeStep : (storeStep pool step).2.inline = none := by
  obtain ⟨hnone, hkept⟩ | ⟨s, e, -, hmoved, -⟩ := storeStep_of_fits hfits
  · rw [hkept, hnone]
  · rw [hmoved]
    rfl

theorem reference_storeStep :
    (storeStep pool step).2.reference = step.reference.or step.stored := by
  obtain ⟨hnone, hkept⟩ | ⟨s, e, hinline, hmoved, -⟩ := storeStep_of_fits hfits
  · rw [hkept, Step.stored, hnone, Option.map_none, Option.or_none]
  · rw [hmoved, Step.reference_of_inline hinline, Step.stored, hinline]
    simp [Step.reference, Snapshot.asReference, Snapshot.hasContent, Option.filter_some]

theorem usageAt_storeStep {h : ContentHash}
    (hroom : usageAt pool h + [step].countP (·.stored == some h) < UInt32.size) :
    usageAt (storeStep pool step).1 h = usageAt pool h + [step].countP (·.stored == some h) := by
  obtain ⟨hnone, hkept⟩ | ⟨s, e, hinline, hmoved, huses⟩ := storeStep_of_fits hfits
  · simp [hkept, Step.stored, hnone]
  · have hstored : step.stored = some (.of s.content) := by rw [Step.stored, hinline]; rfl
    rw [hmoved]
    by_cases hh : ContentHash.of s.content = h
    · subst hh
      simp only [List.countP_singleton, hstored, beq_self_eq_true, if_true] at hroom ⊢
      rw [usageAt_insert_self, huses]
      omega
    · rw [usageAt_insert_of_ne (Ne.symm hh)]
      simp [hstored, hh]

end Step

section Steps

variable {pool : Pool} {steps : List Step}

theorem inline_storeSteps (h : Fits pool steps) :
    ∀ step ∈ (storeSteps pool steps).2, step.inline = none := by
  induction steps generalizing pool with
  | nil => simp [storeSteps]
  | cons step rest ih =>
    simp only [storeSteps, List.forall_mem_cons]
    exact ⟨inline_storeStep h.cons.1, ih h.cons.2⟩

/-- A step that was stripped refers to its content; the others refer to what they referred to. -/
theorem reference_storeSteps (h : Fits pool steps) : (storeSteps pool steps).2.map (·.reference) =
    steps.map fun step => step.reference.or step.stored := by
  induction steps generalizing pool with
  | nil => rfl
  | cons step rest ih =>
    simp only [storeSteps, List.map_cons, reference_storeStep h.cons.1, ih h.cons.2]

/-- An entry counts one more use for each content that was moved under its hash. -/
theorem usageAt_storeSteps (h : Fits pool steps) {hash : ContentHash}
    (hroom : usageAt pool hash + steps.countP (·.stored == some hash) < UInt32.size) :
    usageAt (storeSteps pool steps).1 hash =
      usageAt pool hash + steps.countP (·.stored == some hash) := by
  induction steps generalizing pool with
  | nil => rfl
  | cons step rest ih =>
    have hsplit : (step :: rest).countP (·.stored == some hash) =
        [step].countP (·.stored == some hash) + rest.countP (·.stored == some hash) := by
      rw [← List.countP_append, List.singleton_append]
    have hstep := usageAt_storeStep (h := hash) h.cons.1 (by omega)
    simp only [storeSteps]
    rw [ih h.cons.2 (by omega)]
    omega

theorem ascending_storeStep (h : Ordered.Ascending pool) (step : Step) :
    Ordered.Ascending (storeStep pool step).1 := by
  obtain ⟨-, hkept⟩ | ⟨s, -, -, hstep⟩ := storeStep_cases pool step
  · rwa [hkept]
  · rw [hstep]
    obtain ⟨-, hkept⟩ | ⟨-, e, hmoved, -⟩ := store_cases pool s
    · rwa [hkept]
    · rw [hmoved]
      exact Ordered.ascending_insert h

theorem ascending_storeSteps (h : Ordered.Ascending pool) :
    Ordered.Ascending (storeSteps pool steps).1 := by
  induction steps generalizing pool with
  | nil => exact h
  | cons step rest ih => exact ih (ascending_storeStep h step)

end Steps

theorem mem_keys {pool : Pool} {h : ContentHash} :
    h ∈ pool.map Prod.fst ↔ (contentAt pool h).isSome := by
  rw [contentAt, Option.isSome_map, Option.isSome_iff_ne_none, Ne, Ordered.get?_eq_none, not_not]

theorem mem_keys_of_usageAt {pool : Pool} {h : ContentHash} (hpos : 0 < usageAt pool h) :
    h ∈ pool.map Prod.fst := by
  by_contra hnot
  rw [usageAt, Ordered.get?_eq_none.mpr hnot] at hpos
  exact Nat.lt_irrefl 0 hpos

theorem firstWith_eq_some {h : ContentHash} {steps : List Step} {c : String}
    (hc : firstWith h steps = some c) :
    ContentHash.of c = h ∧ ∃ step ∈ steps, step.inline = some c := by
  obtain ⟨step, hstep, hc⟩ := List.exists_of_findSome?_eq_some hc
  obtain ⟨hinline, hhash⟩ := Option.filter_eq_some_iff.mp hc
  exact ⟨by simpa using hhash, step, hstep, hinline⟩

theorem isSome_firstWith {h : ContentHash} {steps : List Step} : (firstWith h steps).isSome ↔
    ∃ c, ContentHash.of c = h ∧ ∃ step ∈ steps, step.inline = some c := by
  constructor
  · intro hfound
    obtain ⟨c, hc⟩ := Option.isSome_iff_exists.mp hfound
    exact ⟨c, firstWith_eq_some hc⟩
  · rintro ⟨c, rfl, step, hstep, hc⟩
    rw [firstWith, List.findSome?_isSome_iff]
    exact ⟨step, hstep, by simp [hc, Option.filter_some]⟩

end Pool

/-- Counting members by a key that each of them has at most once, key by key. -/
theorem total_countP {α κ : Type} [DecidableEq κ] {key : α → Option κ} {keys : List κ}
    (hkeys : keys.Nodup) {l : List α} (hl : ∀ a ∈ l, ∀ k, key a = some k → k ∈ keys) :
    total (keys.map fun k => l.countP (key · == some k)) = l.countP (key · |>.isSome) := by
  induction l with
  | nil => exact (total_map_ite (fun _ => false) keys).trans (by simp)
  | cons a l ih =>
    obtain ⟨ha, hl⟩ := List.forall_mem_cons.mp hl
    have hone : keys.countP (key a == some ·) = if (key a).isSome then 1 else 0 := by
      cases hkey : key a with
      | none => simp
      | some k =>
        rw [Option.isSome_some, if_pos rfl, ← List.count_eq_one_of_mem hkeys (ha k hkey)]
        exact List.countP_congr fun other _ => by
          rw [beq_iff_eq, beq_iff_eq, Option.some_inj, eq_comm]
    rw [total_map_add (g := fun k => l.countP (key · == some k))
      (h := fun k => if key a == some k then 1 else 0) fun k _ => List.countP_cons, ih hl,
      total_map_ite, hone, List.countP_cons]

namespace Script

def keys (s : Script) : List ContentHash := s.entries.map Prod.fst

def inlineContents (s : Script) : List String := s.steps.filterMap Step.inline

def contents (s : Script) : List String := s.entries.map (·.2.content) ++ s.inlineContents

/-- The pool of a script is in order: entries stand under their own hashes and count the steps that
refer to them, references lead to entries, and no two contents share a hash. -/
structure Accounted (s : Script) : Prop where
  ascending : Ordered.Ascending s.entries
  keyed : ∀ h e, (h, e) ∈ s.entries → h = .of e.content
  counted : ∀ h e, (h, e) ∈ s.entries → e.usageCount = s.steps.countP (·.reference == some h)
  known : ∀ step ∈ s.steps, ∀ h, step.reference = some h → h ∈ s.keys
  distinct : ∀ c ∈ s.contents, ∀ d ∈ s.contents, ContentHash.of c = .of d → c = d

theorem mem_inlineContents {s : Script} {c : String} :
    c ∈ s.inlineContents ↔ ∃ step ∈ s.steps, step.inline = some c := List.mem_filterMap

theorem mem_contents {s : Script} {c : String} :
    c ∈ s.contents ↔ (∃ h e, (h, e) ∈ s.entries ∧ e.content = c) ∨ c ∈ s.inlineContents := by
  simp [contents]

theorem mem_keys_optimize (s : Script) (h : ContentHash) :
    h ∈ s.optimize.keys ↔ h ∈ s.keys ∨ ∃ c ∈ s.inlineContents, ContentHash.of c = h := by
  simp only [keys, Pool.mem_keys, entries_optimize, Pool.contentAt_storeSteps, Option.isSome_or,
    Bool.or_eq_true, Pool.isSome_firstWith, mem_inlineContents, and_comm]

theorem poolStats_eq (s : Script) : s.poolStats = Pool.stats s.entries := by
  cases h : s.pool <;> simp [poolStats, entries, h, Pool.stats, total]

namespace Accounted

variable {s : Script} (h : s.Accounted)
include h

theorem get?_of_mem {hash : ContentHash} {e : PoolEntry} (he : (hash, e) ∈ s.entries) :
    Ordered.get? hash s.entries = some e := Ordered.get?_of_mem h.ascending he

theorem usageAt_entries (hash : ContentHash) :
    Pool.usageAt s.entries hash = s.steps.countP (·.reference == some hash) := by
  rw [Pool.usageAt]
  cases hget : Ordered.get? hash s.entries with
  | some e => exact h.counted hash e (Ordered.mem_of_get? hget)
  | none =>
    symm
    rw [Option.map_none, Option.getD_none, List.countP_eq_zero]
    intro step hstep hrefers
    exact Ordered.get?_eq_none.mp hget (h.known step hstep hash (by simpa using hrefers))

theorem of_contentAt_optimize {hash : ContentHash} {c : String}
    (hc : Pool.contentAt s.optimize.entries hash = some c) : .of c = hash ∧ c ∈ s.contents := by
  rw [entries_optimize, Pool.contentAt_storeSteps, Option.or_eq_some_iff] at hc
  obtain hc | ⟨-, hc⟩ := hc
  · obtain ⟨e, he, rfl⟩ := Option.map_eq_some_iff.mp hc
    have hmem := Ordered.mem_of_get? he
    exact ⟨(h.keyed hash e hmem).symm, mem_contents.mpr (Or.inl ⟨hash, e, hmem, rfl⟩)⟩
  · obtain ⟨hhash, hstep⟩ := Pool.firstWith_eq_some hc
    exact ⟨hhash, mem_contents.mpr (Or.inr (mem_inlineContents.mpr hstep))⟩

theorem contentAt_optimize {c : String} (hc : c ∈ s.contents) :
    Pool.contentAt s.optimize.entries (.of c) = some c := by
  have hfound : (Pool.contentAt s.optimize.entries (.of c)).isSome := by
    rw [entries_optimize, Pool.contentAt_storeSteps, Option.isSome_or, Bool.or_eq_true]
    obtain ⟨hash, e, he, rfl⟩ | hinline := mem_contents.mp hc
    · rw [← h.keyed hash e he, Pool.contentAt, h.get?_of_mem he]
      exact Or.inl rfl
    · exact Or.inr (Pool.isSome_firstWith.mpr ⟨c, rfl, mem_inlineContents.mp hinline⟩)
  obtain ⟨d, hd⟩ := Option.isSome_iff_exists.mp hfound
  obtain ⟨hhash, hmem⟩ := h.of_contentAt_optimize hd
  rw [hd, h.distinct d hmem c hc hhash]

theorem fits : Pool.Fits s.entries s.steps := fun step hstep c hc => by
  rw [← entries_optimize]
  exact h.contentAt_optimize (mem_contents.mpr (Or.inr (mem_inlineContents.mpr ⟨step, hstep, hc⟩)))

theorem usageAt_optimize (hlen : s.steps.length < UInt32.size) (hash : ContentHash) :
    Pool.usageAt s.optimize.entries hash =
      s.optimize.steps.countP (·.reference == some hash) := by
  have huses := Step.countP_uses hash s.steps
  have hroom : s.steps.countP (fun step => step.reference.or step.stored == some hash) ≤
      s.steps.length := List.countP_le_length
  have hafter : s.optimize.steps.countP (·.reference == some hash) =
      s.steps.countP fun step => step.reference.or step.stored == some hash := by
    have hmap := congrArg (List.countP (· == some hash)) (Pool.reference_storeSteps h.fits)
    rwa [List.countP_map, List.countP_map] at hmap
  have hbefore := h.usageAt_entries hash
  rw [entries_optimize, Pool.usageAt_storeSteps h.fits (by omega), hafter]
  omega

theorem ascending_optimize : Ordered.Ascending s.optimize.entries := by
  rw [entries_optimize]
  exact Pool.ascending_storeSteps h.ascending

theorem contentAt_of_mem {hash : ContentHash} {e : PoolEntry}
    (he : (hash, e) ∈ s.optimize.entries) :
    Pool.contentAt s.optimize.entries hash = some e.content := by
  rw [Pool.contentAt, Ordered.get?_of_mem h.ascending_optimize he, Option.map_some]

theorem inline_optimize : ∀ step ∈ s.optimize.steps, step.inline = none :=
  Pool.inline_storeSteps h.fits

theorem inlineContents_optimize : s.optimize.inlineContents = [] :=
  List.filterMap_eq_nil_iff.mpr h.inline_optimize

theorem mem_contents_optimize {c : String} : c ∈ s.optimize.contents ↔ c ∈ s.contents := by
  rw [mem_contents, h.inlineContents_optimize]
  constructor
  · rintro (⟨hash, e, he, rfl⟩ | hnone)
    · exact (h.of_contentAt_optimize (h.contentAt_of_mem he)).2
    · cases hnone
  · intro hc
    obtain ⟨e, he, rfl⟩ := Option.map_eq_some_iff.mp (h.contentAt_optimize hc)
    exact Or.inl ⟨_, e, Ordered.mem_of_get? he, rfl⟩

theorem optimize (hlen : s.steps.length < UInt32.size) : s.optimize.Accounted where
  ascending := h.ascending_optimize
  keyed := fun _ _ he => (h.of_contentAt_optimize (h.contentAt_of_mem he)).1.symm
  counted := fun _ _ he => by
    rw [← h.usageAt_optimize hlen, Pool.usageAt, Ordered.get?_of_mem h.ascending_optimize he]
    rfl
  known := fun step hstep hash hrefers => by
    refine Pool.mem_keys_of_usageAt ?_
    rw [h.usageAt_optimize hlen]
    exact List.countP_pos_iff.mpr ⟨step, hstep, by simpa using hrefers⟩
  distinct := fun c hc d hd =>
    h.distinct c (h.mem_contents_optimize.mp hc) d (h.mem_contents_optimize.mp hd)

theorem nodup_keys : s.keys.Nodup := by
  rw [keys, List.Nodup, List.pairwise_map]
  exact h.ascending.imp fun {a b} hlt (heq : a.1 = b.1) => Std.Irrefl.irrefl b.1 (heq ▸ hlt)

theorem nodup_contents : (s.entries.map (·.2.content)).Nodup := by
  have hkeys : s.keys = (s.entries.map (·.2.content)).map .of := by
    rw [keys, List.map_map]
    exact List.map_congr_left fun pair hpair => h.keyed pair.1 pair.2 hpair
  exact (hkeys ▸ h.nodup_keys).of_map

theorem references_eq : s.poolStats.references = s.steps.countP (·.reference.isSome) := by
  rw [poolStats_eq, Pool.stats, ← total_countP h.nodup_keys h.known, keys, List.map_map]
  exact congrArg total (List.map_congr_left fun pair hpair => h.counted pair.1 pair.2 hpair)

/-- The pool has one entry for each content, once steps carry none. -/
theorem uniqueContents_eq (hinline : s.inlineContents = []) :
    s.poolStats.uniqueContents = s.contents.toFinset.card := by
  rw [contents, hinline, List.append_nil, List.toFinset_card_of_nodup h.nodup_contents,
    List.length_map, poolStats_eq]
  rfl

theorem uniqueContents_optimize (hlen : s.steps.length < UInt32.size) :
    s.optimize.poolStats.uniqueContents = s.contents.toFinset.card := by
  rw [(h.optimize hlen).uniqueContents_eq h.inlineContents_optimize]
  congr 1
  ext c
  rw [List.mem_toFinset, List.mem_toFinset, h.mem_contents_optimize]

end Accounted

/-- Moving contents into the pool keeps its account: afterwards no step carries a content, the
account is right again, the pool has gained the hashes of the contents that were moved, and its
numbers count each content once and each step that refers to one. -/
theorem optimize_accounted {s : Script} (h : s.Accounted) (hlen : s.steps.length < UInt32.size) :
    (∀ step ∈ s.optimize.steps, step.inline = none) ∧
    s.optimize.Accounted ∧
    (∀ hash, hash ∈ s.optimize.keys ↔
      hash ∈ s.keys ∨ ∃ c ∈ s.inlineContents, ContentHash.of c = hash) ∧
    s.optimize.poolStats.uniqueContents = s.contents.toFinset.card ∧
    s.optimize.poolStats.references = s.optimize.steps.countP (·.reference.isSome) :=
  ⟨h.inline_optimize, h.optimize hlen, mem_keys_optimize s, h.uniqueContents_optimize hlen,
    (h.optimize hlen).references_eq⟩

def partlyPooled : Script where
  steps := [{ id := "open", snapshot := some { content := "<a/>" } },
    { id := "help", snapshot := some { content := "<b/>" } },
    { id := "pay", snapshot := some { hash := .of "<a/>" } }]
  pool := some [(.of "<a/>", ⟨"<a/>", none, 1⟩)]

theorem accounted_partlyPooled : partlyPooled.Accounted where
  ascending := List.pairwise_singleton _ _
  keyed := fun hash e he => by
    obtain ⟨rfl, rfl⟩ := Prod.mk.inj (List.mem_singleton.mp he)
    rfl
  counted := fun hash e he => by
    obtain ⟨rfl, rfl⟩ := Prod.mk.inj (List.mem_singleton.mp he)
    simp [partlyPooled, Step.reference, Snapshot.hasContent]
  known := by
    simp [partlyPooled, keys, entries, Step.reference, Snapshot.hasContent]
  distinct := by
    have hcontents : partlyPooled.contents = ["<a/>", "<a/>", "<b/>"] := by decide
    have hne : ContentHash.of "<a/>" ≠ .of "<b/>" := by decide +kernel
    simp [hcontents, hne, hne.symm]

theorem optimize_accounted_partlyPooled : partlyPooled.Accounted ∧
    partlyPooled.steps.length < UInt32.size ∧ partlyPooled.optimize.Accounted ∧
    partlyPooled.optimize.poolStats.uniqueContents = 2 ∧
    partlyPooled.optimize.poolStats.references = 3 := by
  obtain ⟨-, hafter, -, hunique, hreferences⟩ :=
    optimize_accounted accounted_partlyPooled (by decide)
  refine ⟨accounted_partlyPooled, by decide, hafter, ?_, ?_⟩
  · rw [hunique]
    decide
  · rw [hreferences]
    decide +kernel

end Script

end Replay
