import Replay.Recovery.Chain
set_option autoImplicit false

namespace Replay

namespace Snapshot

section Versions

variable (s : Snapshot) (content : String) (strategy : StrategyId) (now : Instant)

@[simp] theorem content_withContent : (s.withContent content).content = content := rfl

@[simp] theorem synthetic_withContent : (s.withContent content).synthetic = s.synthetic := rfl

@[simp] theorem device_withContent : (s.withContent content).device = s.device := rfl

@[simp] theorem content_repairedBy : (s.repairedBy strategy now).content = s.content := rfl

@[simp] theorem synthetic_repairedBy : (s.repairedBy strategy now).synthetic = s.synthetic := rfl

@[simp] theorem device_repairedBy : (s.repairedBy strategy now).device = s.device := rfl

end Versions

end Snapshot

namespace Recovery

structure Result.Alike (r r' : Result) : Prop where
  success_eq : r'.success = r.success
  strategy_eq : r'.strategy = r.strategy
  recovered_eq : r'.recovered = r.recovered

theorem Result.alike_warn (r : Result) (text : String) : r.Alike (r.warn text) := ⟨rfl, rfl, rfl⟩

theorem Result.alike_recommend (r : Result) (text : String) : r.Alike (r.recommend text) :=
  ⟨rfl, rfl, rfl⟩

theorem Result.alike_foldl {α : Type} {f : Result → α → Result}
    (hf : ∀ (r : Result) (a : α), r.Alike (f r a)) (l : List α) (r : Result) :
    r.Alike (l.foldl f r) := by
  induction l generalizing r with
  | nil => exact ⟨rfl, rfl, rfl⟩
  | cons a l ih =>
    have hfirst := hf r a
    have hrest := ih (f r a)
    exact ⟨hrest.success_eq.trans hfirst.success_eq,
      hrest.strategy_eq.trans hfirst.strategy_eq, hrest.recovered_eq.trans hfirst.recovered_eq⟩

theorem Source.ask_eq (turn : Nat) (key : LookupKey) (n : Nat) (sources : List Source) :
    (ask turn key n sources).1 = firstAnswer turn key sources := by
  induction sources generalizing n with
  | nil => rfl
  | cons source rest ih =>
    rw [ask, firstAnswer, List.findSome?_cons]
    cases source.lookup turn key with
    | some found => rfl
    | none => exact ih (n + 1)

theorem Source.firstAnswer_eq_some {turn : Nat} {key : LookupKey} {sources : List Source}
    {name : String} {found : Snapshot} : firstAnswer turn key sources = some (name, found) ↔
      ∃ earlier source later, sources = earlier ++ source :: later ∧
        (∀ s ∈ earlier, s.lookup turn key = none) ∧ source.name = name ∧
        source.lookup turn key = some found := by
  simp only [firstAnswer, List.findSome?_eq_some_iff, Option.map_eq_some_iff, Prod.mk.injEq,
    Option.map_eq_none_iff]
  constructor
  · rintro ⟨earlier, source, later, hsources, ⟨_, hfound, hname, rfl⟩, hearlier⟩
    exact ⟨earlier, source, later, hsources, hearlier, hname, hfound⟩
  · rintro ⟨earlier, source, later, hsources, hearlier, hname, hfound⟩
    exact ⟨earlier, source, later, hsources, ⟨found, hfound, hname, rfl⟩, hearlier⟩

theorem Source.exists_of_firstAnswer {turn : Nat} {key : LookupKey} {sources : List Source}
    {name : String} {found : Snapshot} (h : firstAnswer turn key sources = some (name, found)) :
    ∃ source ∈ sources, source.lookup turn key = some found := by
  obtain ⟨earlier, source, later, rfl, -, -, hfound⟩ := firstAnswer_eq_some.mp h
  exact ⟨source, List.mem_append_right earlier List.mem_cons_self, hfound⟩

namespace Strategy

theorem findSnapshot_eq (shared : List Source) (c : Context) (key : LookupKey) :
    (findSnapshot shared c key).1 = Source.firstAnswer c.index key (c.localSources ++ shared) := by
  have happend : Source.firstAnswer c.index key (c.localSources ++ shared) =
      (Source.firstAnswer c.index key c.localSources).or (Source.firstAnswer c.index key shared) :=
    List.findSome?_append
  rw [happend, findSnapshot]
  cases Source.firstAnswer c.index key c.localSources with
  | some answer => rfl
  | none => exact Source.ask_eq c.index key 0 shared

def Signs (s : Strategy) : Prop := ∀ c, (s.attempt c).result.strategy = s.id

theorem repairResult_spec (s : Snapshot) (now : Instant) :
    (repairResult s now).strategy = .xmlRepair ∧
      ∀ found, (repairResult s now).recovered = some found →
        found = (s.withContent (Xml.repair s.content).content).repairedBy .xmlRepair now := by
  unfold repairResult
  extract_lets outcome
  split
  · exact ⟨rfl, fun found hfound => absurd hfound.symm (Option.some_ne_none found)⟩
  · split
    · have halike (r : Result) := Result.alike_foldl
        (fun r (step : Xml.RepairStep) => r.alike_warn ("repair: " ++ step.describe))
        outcome.applied r
      rw [(halike _).strategy_eq, (halike _).recovered_eq]
      exact ⟨rfl, fun found hfound => (Option.some.inj hfound).symm⟩
    · exact ⟨rfl, fun found hfound => absurd hfound.symm (Option.some_ne_none found)⟩

theorem adaptResult_spec (s : Snapshot) (target : Device) (now : Instant) :
    (adaptResult s target now).strategy = .deviceAdaptation ∧
      (adaptResult s target now).recovered =
        some { (s.withContent (adaptedContent s target).1).repairedBy .deviceAdaptation now with
          device := adaptedDevice target s.device } := by
  simp only [adaptResult]
  split <;> exact ⟨rfl, rfl⟩

section Proposals

variable {c : Context} {s : Snapshot}

theorem proposed_xmlRepair (h : (xmlRepair.attempt c).result.recovered = some s) :
    ∃ old, c.step.snapshot = some old ∧
      s = (old.withContent (Xml.repair old.content).content).repairedBy .xmlRepair c.now := by
  simp only [xmlRepair] at h
  split at h
  · cases h
  · next old hold =>
    exact ⟨old, (Option.filter_eq_some_iff.mp hold).1, (repairResult_spec old c.now).2 s h⟩

theorem proposed_cacheLookup {shared : List Source}
    (h : ((cacheLookup shared).attempt c).result.recovered = some s) :
    ∃ key source found, LookupKey.ofStep c.step = some key ∧
      (findSnapshot shared c key).1 = some (source, found) ∧
      s = { found.repairedBy .cacheLookup c.now with synthetic := false } := by
  simp only [cacheLookup] at h
  split at h
  · cases h
  · next key hkey =>
    split at h
    · next source found queries hfound =>
      exact ⟨key, source, found, hkey, by rw [hfound], (Option.some.inj h).symm⟩
    · cases h

theorem proposed_deviceAdaptation
    (h : (deviceAdaptation.attempt c).result.recovered = some s) :
    ∃ target old, c.target = some target ∧ c.step.snapshot = some old ∧
      s = { (old.withContent (adaptedContent old target).1).repairedBy .deviceAdaptation c.now with
        device := adaptedDevice target old.device } := by
  simp only [deviceAdaptation] at h
  split at h
  · next old target hold htarget =>
    rw [(adaptResult_spec old target c.now).2] at h
    exact ⟨target, old, htarget, (Option.filter_eq_some_iff.mp hold).1, (Option.some.inj h).symm⟩
  · cases h

theorem proposed_regeneration (h : (regeneration.attempt c).result.recovered = some s) :
    s = generated c.step c.now := by
  simp only [regeneration] at h
  split at h
  · cases h
  · exact (Option.some.inj h).symm

end Proposals

theorem signs_xmlRepair : xmlRepair.Signs := by
  intro c
  simp only [xmlRepair]
  split
  · rfl
  · next s _ => exact (repairResult_spec s c.now).1

theorem signs_cacheLookup (shared : List Source) : (cacheLookup shared).Signs := by
  intro c
  simp only [cacheLookup]
  split
  · rfl
  · split <;> rfl

theorem signs_deviceAdaptation : deviceAdaptation.Signs := by
  intro c
  simp only [deviceAdaptation]
  split
  · next s target _ _ => exact (adaptResult_spec s target c.now).1
  · rfl

theorem signs_regeneration : regeneration.Signs := by
  intro c
  simp only [regeneration]
  split <;> rfl

theorem success_manualGuidance (c : Context) :
    (manualGuidance.attempt c).result.success = false :=
  (Result.alike_foldl Result.alike_recommend (guidance c) _).success_eq

theorem recovered_manualGuidance (c : Context) :
    (manualGuidance.attempt c).result.recovered = none :=
  (Result.alike_foldl Result.alike_recommend (guidance c) _).recovered_eq

end Strategy

namespace Chain

structure Signed (chain : Chain) : Prop where
  linked : ∀ t s, (t, s) ∈ chain.links → s.Signs
  gives_up : ∀ c, (chain.fallback.attempt c).result.success = false

theorem mem_standard {sources : List Source} {allowRegeneration : Bool} {t : Trigger}
    {s : Strategy} (h : (t, s) ∈ (standard sources allowRegeneration).links) :
    s = .xmlRepair ∨ s = .cacheLookup sources ∨ s = .deviceAdaptation ∨ s = .regeneration := by
  cases allowRegeneration <;> simp [standard] at h <;> grind

theorem signed_standard (sources : List Source) (allowRegeneration : Bool) :
    (standard sources allowRegeneration).Signed where
  linked t s h := by
    obtain rfl | rfl | rfl | rfl := mem_standard h
    · exact Strategy.signs_xmlRepair
    · exact Strategy.signs_cacheLookup sources
    · exact Strategy.signs_deviceAdaptation
    · exact Strategy.signs_regeneration
  gives_up := Strategy.success_manualGuidance

end Chain

end Recovery

end Replay
