import Replay.Exchange
import Replay.Proofs.Pool.Restoration
import Replay.Proofs.Wire.Script
set_option autoImplicit false

namespace Replay

theorem Snapshot.Portable.withText {s : Snapshot} (h : s.Portable) (content : String) :
    ({ s with content } : Snapshot).Portable :=
  ⟨h.hash, h.capturedAt, h.device, h.page, h.repair⟩

namespace Pool

theorem Portable.insert {pool : Pool} (h : pool.Portable) {hash : ContentHash} {e : PoolEntry}
    (hlower : hash.IsLower) (he : e.Portable) : Portable (Ordered.insert hash e pool) where
  ascending := Ordered.ascending_insert h.ascending
  isLower := fun pair hpair => by
    obtain rfl | hpair := Ordered.mem_insert hpair
    · exact hlower
    · exact h.isLower pair hpair
  entry := fun pair hpair => by
    obtain rfl | hpair := Ordered.mem_insert hpair
    · exact he
    · exact h.entry pair hpair

theorem portable_nil : Portable [] := ⟨List.Pairwise.nil, nofun, nofun⟩

theorem portable_use {e : PoolEntry} (h : e.Portable) : (use e).Portable where
  capturedAt := h.capturedAt
  usageCount_lt := Nat.lt_of_le_of_lt (Nat.min_le_right _ _) (by decide)

theorem portable_store {pool : Pool} {s : Snapshot} (hpool : pool.Portable) (hs : s.Portable) :
    (store pool s).1.Portable ∧ (store pool s).2.Portable := by
  have hlower : (ContentHash.of s.content).IsLower := ContentHash.isLower_of s.content
  have hreference : ({ s with hash := .of s.content }.asReference : Snapshot).Portable :=
    ⟨hlower, hs.capturedAt, hs.device, hs.page, hs.repair⟩
  simp only [store]
  split
  · next e he =>
    split
    · have hentry : e.Portable := hpool.entry _ (Ordered.mem_of_get? he)
      exact ⟨hpool.insert hlower (portable_use hentry), hreference⟩
    · exact ⟨hpool, hs⟩
  · have hone : 1 < UInt32.size := by decide
    exact ⟨hpool.insert hlower ⟨hs.capturedAt, hone⟩, hreference⟩

theorem portable_storeStep {depth : Nat} {pool : Pool} {step : Step} (hpool : pool.Portable)
    (hstep : step.Portable depth) :
    (storeStep pool step).1.Portable ∧ (storeStep pool step).2.Portable depth := by
  unfold storeStep
  split
  · next s hs =>
    split
    · obtain ⟨hpool', hs'⟩ := portable_store hpool (hstep.snapshot s hs)
      exact ⟨hpool', hstep.params, fun t ht => Option.some.inj ht ▸ hs'⟩
    · exact ⟨hpool, hstep⟩
  · exact ⟨hpool, hstep⟩

theorem portable_storeSteps {depth : Nat} {pool : Pool} {steps : List Step}
    (hpool : pool.Portable) (hsteps : ∀ step ∈ steps, step.Portable depth) :
    (storeSteps pool steps).1.Portable ∧
      ∀ step ∈ (storeSteps pool steps).2, step.Portable depth := by
  induction steps generalizing pool with
  | nil => simpa [storeSteps] using hpool
  | cons step steps ih =>
    obtain ⟨hpool', hstep⟩ := portable_storeStep hpool (hsteps step List.mem_cons_self)
    obtain ⟨hpool'', hrest⟩ := ih hpool' fun x hx => hsteps x (List.mem_cons_of_mem step hx)
    simp only [storeSteps, List.forall_mem_cons]
    exact ⟨hpool'', hstep, hrest⟩

theorem portable_restoreStep {depth : Nat} {step : Step} (h : step.Portable depth) (pool : Pool) :
    (restoreStep pool step).Portable depth := by
  refine ⟨h.params, fun t ht => ?_⟩
  obtain ⟨s, hs, rfl⟩ := Option.map_eq_some_iff.mp ht
  unfold restoreSnapshot
  split
  · exact (h.snapshot s hs).withText _
  · exact h.snapshot s hs

theorem params_storeSteps (pool : Pool) (steps : List Step) :
    (storeSteps pool steps).2.map (·.params) = steps.map (·.params) := by
  have hone (pool : Pool) (step : Step) : (storeStep pool step).2.params = step.params := by
    unfold storeStep
    split
    · split <;> rfl
    · rfl
  induction steps generalizing pool with
  | nil => rfl
  | cons step steps ih => simp [storeSteps, hone, ih]

end Pool

namespace Script

open Wire

section

variable {depth : Nat} {s : Script}

theorem Portable.restore (h : s.Portable depth) : s.restore.Portable depth where
  steps := fun step hstep => by
    rw [steps_restore] at hstep
    obtain ⟨before, hbefore, rfl⟩ := List.mem_map.mp hstep
    exact Pool.portable_restoreStep (h.steps before hbefore) _
  pool := fun p hp => by
    rw [pool_restore] at hp
    cases hp
  metadata := fun m hm => by
    have hmetadata : s.restore.metadata = s.metadata := by
      unfold Script.restore
      split <;> rfl
    exact h.metadata m (hmetadata ▸ hm)

theorem Portable.optimize (h : s.Portable depth) : s.optimize.Portable depth := by
  have hpool : (s.pool.getD []).Portable := by
    cases hp : s.pool with
    | none => exact Pool.portable_nil
    | some p => exact h.pool p hp
  obtain ⟨hpool', hsteps⟩ := Pool.portable_storeSteps hpool h.steps
  refine ⟨hsteps, fun p hp => ?_, h.metadata⟩
  obtain ⟨-, heq⟩ := Option.ite_none_left_eq_some.mp hp
  exact Option.some.inj heq ▸ hpool'

theorem Integral.optimize (h : s.Integral) : s.optimize.Integral :=
  h.of_frame (Pool.params_storeSteps (s.pool.getD []) s.steps) rfl

end

/-- What stands in a text besides the script itself is at most six levels deep. -/
theorem portable_of_ofText {text : String} {s : Script} (h : ofText text = .ok s) :
    s.Portable 121 := by
  unfold ofText at h
  split at h
  · cases h
  · next j hj =>
    split at h
    · next hs =>
      obtain rfl := Except.ok.inj h
      exact portable_of_json (Json.result_of_parse hj) hs
    · cases h
    · cases h

theorem portable_of_importText {text : String} {s : Script} (h : importText text = .ok s) :
    s.Portable 121 := by
  obtain ⟨pooled, hpooled, rfl⟩ := map_eq_ok.mp h
  exact (portable_of_ofText hpooled).restore

theorem pool_of_importText {text : String} {s : Script} (h : importText text = .ok s) :
    s.pool = none := by
  obtain ⟨pooled, -, rfl⟩ := map_eq_ok.mp h
  exact pooled.pool_restore

theorem get?_steps (s : Script) :
    s.toJson.sorted.get? "steps" = some (writeList Step.toJson s.steps).sorted := by
  change found "steps" _ = _
  simp

theorem parse?_pretty {s : Script} (h : s.Portable 121) (hint : s.Integral) :
    Json.parse? s.toJson.pretty = some s.toJson.sorted ∧ ofJson? s.toJson.sorted = some s := by
  have hcarries : Carries Json.maxDepth toJson ofJson? s := carries h hint
  exact ⟨Json.parse?_render Json.spaced_pretty hcarries.plain.fits hcarries.plain.integral,
    hcarries.read_sorted⟩

theorem ofText_pretty {s : Script} (h : s.Portable 121) (hint : s.Integral) :
    ofText s.toJson.pretty = .ok s := by
  obtain ⟨hparse, hread⟩ := parse?_pretty h hint
  rw [ofText, hparse]
  dsimp only
  rw [get?_steps, hread]
  rfl

/-- A script that was imported, exported and imported again has been through the pool and nothing
else. Its steps keep their own contents and all that is not content or hash, and all else stays. -/
theorem importText_exportText {text : String} {s : Script} (h : importText text = .ok s)
    (hint : s.Integral) :
    importText s.exportText = .ok s.optimize.restore ∧
      (s.optimize.restore.pool = none ∧ s.optimize.restore.name = s.name ∧
        s.optimize.restore.version = s.version ∧ s.optimize.restore.metadata = s.metadata ∧
        s.optimize.restore.steps.map Step.bare = s.steps.map Step.bare) ∧
      ∀ (i : Nat) (step : Step), s.steps[i]? = some step →
        ∃ after, s.optimize.restore.steps[i]? = some after ∧
          ∀ c, step.inline = some c → after.inline = some c := by
  have hportable : s.optimize.Portable 121 := (portable_of_importText h).optimize
  have hread : ofText s.exportText = .ok s.optimize := ofText_pretty hportable hint.optimize
  obtain ⟨hpool, hname, hversion, hmetadata⟩ := restore_optimize_frame s
  refine ⟨?_, ⟨hpool, hname, hversion, hmetadata, bare_restore_optimize s⟩, fun i step hi => ?_⟩
  · rw [importText, hread]
    rfl
  · obtain ⟨after, hafter, hback⟩ := cameBack_restore_optimize hi
    exact ⟨after, hafter, fun c => hback.inline⟩

def orderText : String :=
  "\x7b\"steps\":[" ++
    "\x7b\"id\":\"open\",\"params\":\x7b\"times\":3\x7d," ++
      "\"snapshot\":\x7b\"content\":\"<a/>\",\"synthetic\":true\x7d\x7d," ++
    "\x7b\"id\":\"pay\",\"locator\":\x7b\"text\":\"Pay\"\x7d," ++
      "\"snapshot\":\x7b\"content\":\"<a/>\"\x7d\x7d]," ++
    "\"metadata\":\x7b\"team\":\"shop\"\x7d\x7d"

def order : Script where
  steps := [{ id := "open"
              params := [("times", .nat 3)]
              snapshot := some { content := "<a/>", synthetic := true } },
            { id := "pay"
              locator := { textField := some "Pay" }
              snapshot := some { content := "<a/>" } }]
  metadata := some { extra := [("team", .string "shop")] }

set_option maxRecDepth 20000 in
theorem importText_exportText_order :
    importText orderText = .ok order ∧ order.Integral ∧
      importText order.exportText = .ok order.optimize.restore ∧
      order.optimize.restore.metadata = some { extra := [("team", .string "shop")] } ∧
      ∃ after, order.optimize.restore.steps[1]? = some after ∧ after.inline = some "<a/>" := by
  have hread : importText orderText = .ok order := rfl
  have hint : order.Integral := by
    refine ⟨fun step hstep => ?_, fun m hm => ?_⟩
    · have hopen : (Json.object [("times", .nat 3)]).Integral :=
        .object fun m hm => List.mem_singleton.mp hm ▸ .integer
      obtain rfl | hstep := List.mem_cons.mp hstep
      · exact hopen
      · obtain rfl := List.mem_singleton.mp hstep
        exact .object nofun
    · obtain rfl := Option.some.inj hm
      exact .object fun m hm => List.mem_singleton.mp hm ▸ .string
  obtain ⟨hback, ⟨-, -, -, hmetadata, -⟩, hsteps⟩ := importText_exportText hread hint
  obtain ⟨after, hafter, hinline⟩ := hsteps 1 _ rfl
  exact ⟨hread, hint, hback, hmetadata, after, hafter, hinline _ rfl⟩

end Script

end Replay
