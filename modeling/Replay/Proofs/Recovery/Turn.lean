import Replay.Recovery.Engine
set_option autoImplicit false

/-!
What a turn does. The strategies of the plan are tried in order up to the first whose result is
accepted (`tryAll_cases`), so that a turn ends with that result or with the fallback
(`recoverStep_ends`). It keeps the step or gives it a snapshot that was accepted
(`recoverStep_cases`).
-/

namespace Replay.Recovery.Engine

def accepts? (e : Engine) (c : Context) (s : Strategy) : Option StepReport :=
  if (s.attempt c).result.success then
    e.accept? c s.id (validateStep e.limits (e.clock (.turn c.index)) c.index c.step)
      (s.attempt c).result
  else none

/-- The result of a strategy that was not accepted; if it was a success, it is taken back. -/
def refused (c : Context) (s : Strategy) : Result :=
  if (s.attempt c).result.success then (s.attempt c).result.reject else (s.attempt c).result

theorem success_refused (c : Context) (s : Strategy) : (refused c s).success = false := by
  rw [refused]
  split
  · rfl
  · next h => exact Bool.eq_false_iff.mpr h

theorem strategy_refused (c : Context) (s : Strategy) :
    (refused c s).strategy = (s.attempt c).result.strategy := by
  rw [refused]
  split <;> rfl

theorem recovered_refused (c : Context) (s : Strategy) :
    (refused c s).recovered = (s.attempt c).result.recovered := by
  rw [refused]
  split <;> rfl

def queriesOf (c : Context) (ss : List Strategy) : List Query :=
  ss.flatMap fun s => (s.attempt c).queries

section Ends

variable (e : Engine) (c : Context)

theorem tryAll_cases (ss : List Strategy) :
    let trial := e.tryAll c (validateStep e.limits (e.clock (.turn c.index)) c.index c.step) ss
    (∃ tried s rest after, ss = tried ++ s :: rest ∧ (∀ t ∈ tried, e.accepts? c t = none) ∧
      e.accepts? c s = some after ∧
      trial = ⟨tried.map (refused c) ++ [(s.attempt c).result], queriesOf c (tried ++ [s]),
        some ((s.attempt c).result, after)⟩) ∨
    (∀ t ∈ ss, e.accepts? c t = none) ∧ trial = ⟨ss.map (refused c), queriesOf c ss, none⟩ := by
  induction ss with
  | nil => exact Or.inr ⟨nofun, rfl⟩
  | cons s rest ih =>
    simp only [tryAll]
    cases h : e.accepts? c s with
    | some after =>
      rw [accepts?] at h
      refine Or.inl ⟨[], s, rest, after, rfl, nofun, h, ?_⟩
      simp [h, queriesOf]
    | none =>
      have hnone := h
      rw [accepts?] at h
      rw [h]
      obtain ⟨tried, s', rest', after, rfl, htried, hs', htrial⟩ | ⟨hall, htrial⟩ := ih
      · refine Or.inl ⟨s :: tried, s', rest', after, rfl, ?_, hs', ?_⟩
        · exact List.forall_mem_cons.mpr ⟨hnone, htried⟩
        · simp only [htrial, queriesOf, refused, List.cons_append, List.map_cons,
            List.flatMap_cons]
      · refine Or.inr ⟨List.forall_mem_cons.mpr ⟨hnone, hall⟩, ?_⟩
        simp only [htrial, queriesOf, refused, List.map_cons, List.flatMap_cons]

/-- A turn ends with the first strategy whose result is accepted, or with the fallback. -/
theorem recoverStep_ends :
    (∃ tried s rest after, e.chain.plan c.failure c.issues = tried ++ s :: rest ∧
      (∀ t ∈ tried, e.accepts? c t = none) ∧ e.accepts? c s = some after ∧
      e.recoverStep c =
        { outcome := ⟨c.index, c.step.id, c.failure, c.issues,
            tried.map (refused c) ++ [(s.attempt c).result], some (s.attempt c).result.strategy,
            c.issues.countP fun i => !after.hasIssue i.code⟩
          step := { c.step with snapshot := (s.attempt c).result.recovered }
          queries := queriesOf c (tried ++ [s]) }) ∨
    (∀ t ∈ e.chain.plan c.failure c.issues, e.accepts? c t = none) ∧
      e.recoverStep c =
        { outcome := ⟨c.index, c.step.id, c.failure, c.issues,
            (e.chain.plan c.failure c.issues).map (refused c) ++
              [(e.chain.fallback.attempt c).result], none, 0⟩
          step := c.step
          queries := queriesOf c (e.chain.plan c.failure c.issues ++ [e.chain.fallback]) } := by
  obtain ⟨tried, s, rest, after, hplan, htried, hs, htrial⟩ | ⟨hall, htrial⟩ :=
    e.tryAll_cases c (e.chain.plan c.failure c.issues)
  · refine Or.inl ⟨tried, s, rest, after, hplan, htried, hs, ?_⟩
    simp only [recoverStep, htrial]
  · refine Or.inr ⟨hall, ?_⟩
    simp only [recoverStep, htrial, queriesOf, List.flatMap_append, List.flatMap_singleton]

theorem recovered_of_mem_attempts {r : Result} (h : r ∈ (e.recoverStep c).outcome.attempts) :
    ∃ s, (s ∈ e.chain.plan c.failure c.issues ∨ s = e.chain.fallback) ∧
      r.recovered = (s.attempt c).result.recovered := by
  obtain ⟨tried, s, rest, after, hplan, -, -, heq⟩ | ⟨-, heq⟩ := e.recoverStep_ends c
  · simp only [heq, List.mem_append, List.mem_map, List.mem_singleton] at h
    obtain ⟨t, ht, rfl⟩ | rfl := h
    · exact ⟨t, Or.inl (by simp [hplan, ht]), recovered_refused c t⟩
    · exact ⟨s, Or.inl (by simp [hplan]), rfl⟩
  · simp only [heq, List.mem_append, List.mem_map, List.mem_singleton] at h
    obtain ⟨t, ht, rfl⟩ | rfl := h
    · exact ⟨t, Or.inl ht, recovered_refused c t⟩
    · exact ⟨_, Or.inr rfl, rfl⟩

end Ends

/-- A snapshot that a strategy of the plan proposed and that was accepted: it is valid, or no worse
than what the step had. -/
structure Accepted (e : Engine) (c : Context) (strategy : Strategy) (s : Snapshot) : Prop where
  planned : strategy ∈ e.chain.plan c.failure c.issues
  proposed : (strategy.attempt c).result.recovered = some s
  alone_or_noWorse :
    (validateSnapshot e.limits (e.clock (.verdict c.index strategy.id)) s).isValid ∨
    noWorse (validateStep e.limits (e.clock (.turn c.index)) c.index c.step)
      (validateStep e.limits (e.clock (.proposal c.index strategy.id)) c.index
        { c.step with snapshot := some s })

theorem accept?_eq_some {e : Engine} {c : Context} {id : StrategyId} {before after : StepReport}
    {r : Result} (h : e.accept? c id before r = some after) : ∃ s, r.recovered = some s ∧
      after = validateStep e.limits (e.clock (.proposal c.index id)) c.index
        { c.step with snapshot := some s } ∧
      ((validateSnapshot e.limits (e.clock (.verdict c.index id)) s).isValid ∨
        noWorse before after) := by
  rw [accept?] at h
  cases hs : r.recovered with
  | none => simp [hs] at h
  | some s =>
    simp only [hs, Option.bind_eq_bind, Option.bind_some, Option.ite_none_right_eq_some,
      Bool.or_eq_true, Option.some.injEq] at h
    obtain ⟨hok, rfl⟩ := h
    exact ⟨s, rfl, rfl, hok⟩

theorem accepts?_eq_some {e : Engine} {c : Context} {s : Strategy} {after : StepReport}
    (h : e.accepts? c s = some after) : (s.attempt c).result.success ∧
      ∃ found, (s.attempt c).result.recovered = some found ∧
        after = validateStep e.limits (e.clock (.proposal c.index s.id)) c.index
          { c.step with snapshot := some found } ∧
        ((validateSnapshot e.limits (e.clock (.verdict c.index s.id)) found).isValid ∨
          noWorse (validateStep e.limits (e.clock (.turn c.index)) c.index c.step) after) := by
  obtain ⟨hsuccess, haccept⟩ := Option.ite_none_right_eq_some.mp h
  exact ⟨hsuccess, accept?_eq_some haccept⟩

/-- A turn keeps the step, or gives it a snapshot that was accepted. -/
theorem recoverStep_cases (e : Engine) (c : Context) :
    (e.recoverStep c).step = c.step ∨ ∃ strategy s, e.Accepted c strategy s ∧
      (e.recoverStep c).step = { c.step with snapshot := some s } := by
  obtain ⟨tried, strategy, rest, after, hplan, -, haccepts, heq⟩ | ⟨-, heq⟩ := e.recoverStep_ends c
  · obtain ⟨-, s, hs, rfl, hok⟩ := accepts?_eq_some haccepts
    have hplanned : strategy ∈ e.chain.plan c.failure c.issues := by simp [hplan]
    exact Or.inr ⟨strategy, s, ⟨hplanned, hs, hok⟩, by rw [heq, hs]⟩
  · exact Or.inl (by rw [heq])

@[simp] theorem index_recoverStep (e : Engine) (c : Context) :
    (e.recoverStep c).outcome.index = c.index := by
  simp only [recoverStep]
  split <;> rfl

@[simp] theorem foundIssues_recoverStep (e : Engine) (c : Context) :
    (e.recoverStep c).outcome.foundIssues = c.issues := by
  simp only [recoverStep]
  split <;> rfl

@[simp] theorem failure_recoverStep (e : Engine) (c : Context) :
    (e.recoverStep c).outcome.failure = c.failure := by
  simp only [recoverStep]
  split <;> rfl

end Replay.Recovery.Engine
