import Mathlib.Data.List.Basic
import Replay.Recovery.Chain
set_option autoImplicit false

/-!
Plans. What a chain plans for a step is linked to something that the failure triggers (`mem_plan`),
and no id is planned twice (`nodup_plan`). A link matches at a place: at a trigger of the failure
and at a position in the chain. The candidates of a step are put into its plan one by one, in the
order of their places (`pairwise_candidates`), and of those with one id the first stays
(`firsts_foldl_addNew`), so that the ids are in the order of their first places
(`plan_first_matching`).
-/

namespace Replay.Recovery.Chain

theorem mem_linkedTo {c : Chain} {t : Trigger} {s : Strategy} :
    s ∈ c.linkedTo t ↔ (t, s) ∈ c.links := by
  simp [linkedTo]

theorem mem_addNew {plan : List Strategy} {s x : Strategy} (h : x ∈ addNew plan s) :
    x ∈ plan ∨ x = s := by
  rw [addNew] at h
  split at h
  · exact Or.inl h
  · simpa using h

theorem mem_foldl_addNew {ss plan : List Strategy} {x : Strategy}
    (h : x ∈ ss.foldl addNew plan) : x ∈ plan ∨ x ∈ ss := by
  induction ss generalizing plan with
  | nil => exact Or.inl h
  | cons s rest ih =>
    obtain hplan | hrest := ih h
    · obtain hold | rfl := mem_addNew hplan
      · exact Or.inl hold
      · exact Or.inr List.mem_cons_self
    · exact Or.inr (List.mem_cons_of_mem s hrest)

theorem mem_plan {c : Chain} {failure : FailureKind} {issues : List Issue} {s : Strategy}
    (h : s ∈ c.plan failure issues) : ∃ t ∈ triggers failure issues, (t, s) ∈ c.links := by
  obtain hnil | hmem := mem_foldl_addNew h
  · cases hnil
  · obtain ⟨t, ht, hs⟩ := List.mem_flatMap.mp hmem
    exact ⟨t, ht, mem_linkedTo.mp hs⟩

theorem addNew_of_planned {plan : List Strategy} {s : Strategy} (h : s.id ∈ plan.map (·.id)) :
    addNew plan s = plan := by
  obtain ⟨p, hp, heq⟩ := List.mem_map.mp h
  exact if_pos (List.any_eq_true.mpr ⟨p, hp, by simpa using heq⟩)

theorem addNew_of_new {plan : List Strategy} {s : Strategy} (h : s.id ∉ plan.map (·.id)) :
    addNew plan s = plan ++ [s] := by
  refine if_neg fun hany => h ?_
  obtain ⟨p, hp, heq⟩ := List.any_eq_true.mp hany
  exact List.mem_map.mpr ⟨p, hp, beq_iff_eq.mp heq⟩

theorem mem_ids_addNew {plan : List Strategy} {s : Strategy} {id : StrategyId} :
    id ∈ (addNew plan s).map (·.id) ↔ id ∈ plan.map (·.id) ∨ s.id = id := by
  by_cases hs : s.id ∈ plan.map (·.id)
  · rw [addNew_of_planned hs]
    exact ⟨Or.inl, fun h => h.elim (fun hid => hid) fun heq => heq ▸ hs⟩
  · rw [addNew_of_new hs, List.map_append, List.mem_append, List.map_singleton,
      List.mem_singleton, eq_comm (a := id)]

theorem nodup_addNew {plan : List Strategy} (h : (plan.map (·.id)).Nodup) (s : Strategy) :
    ((addNew plan s).map (·.id)).Nodup := by
  by_cases hs : s.id ∈ plan.map (·.id)
  · rwa [addNew_of_planned hs]
  · rw [addNew_of_new hs, List.map_append, List.map_singleton]
    refine List.nodup_append.mpr ⟨h, by simp, fun id hid other hother heq => ?_⟩
    obtain rfl := List.mem_singleton.mp hother
    exact hs (heq ▸ hid)

theorem nodup_plan (c : Chain) (failure : FailureKind) (issues : List Issue) :
    ((c.plan failure issues).map (·.id)).Nodup := by
  have hfold (ss plan : List Strategy) (h : (plan.map (·.id)).Nodup) :
      ((ss.foldl addNew plan).map (·.id)).Nodup := by
    induction ss generalizing plan with
    | nil => exact h
    | cons s rest ih => exact ih _ (nodup_addNew h s)
  exact hfold _ [] List.nodup_nil

theorem foldl_addNew_of_planned {ss plan : List Strategy}
    (h : ∀ s ∈ ss, s.id ∈ plan.map (·.id)) : ss.foldl addNew plan = plan := by
  induction ss with
  | nil => rfl
  | cons s rest ih =>
    obtain ⟨hs, hrest⟩ := List.forall_mem_cons.mp h
    rw [List.foldl_cons, addNew_of_planned hs, ih hrest]

/-- Where a link matches: at which of the triggers, and where it stands in the chain. -/
structure Place where
  trigger : Nat
  link : Nat
  deriving DecidableEq, Repr

def Place.Before (p q : Place) : Prop :=
  p.trigger < q.trigger ∨ p.trigger = q.trigger ∧ p.link < q.link

theorem Place.Before.asymm {p q : Place} (h : p.Before q) : ¬ q.Before p := by
  unfold Before at *
  omega

/-- The strategy is linked at a place to what triggers it: the code of an issue if the step is
corrupted, and otherwise the failure. -/
inductive Matches (c : Chain) (issues : List Issue) : FailureKind → Place → Strategy → Prop
  | issue {n link : Nat} {i : Issue} {s : Strategy} (listed : issues[n]? = some i)
      (linked : c.links[link]? = some (.issue i.code, s)) : Matches c issues .corrupted ⟨n, link⟩ s
  | failure {kind : FailureKind} {link : Nat} {s : Strategy} (whole : kind ≠ .corrupted)
      (linked : c.links[link]? = some (.failure kind, s)) : Matches c issues kind ⟨0, link⟩ s

structure First (c : Chain) (failure : FailureKind) (issues : List Issue) (p : Place)
    (s : Strategy) : Prop where
  here : c.Matches issues failure p s
  none_before : ∀ q t, c.Matches issues failure q t → t.id = s.id → ¬ q.Before p

section Candidates

variable (c : Chain)

def candidatesAt (n : Nat) (t : Trigger) : List (Place × Strategy) :=
  (c.links.zipIdx.filter fun x => x.1.1 == t).map fun x => (⟨n, x.2⟩, x.1.2)

def candidates (ts : List Trigger) : List (Place × Strategy) :=
  ts.zipIdx.flatMap fun (t, n) => c.candidatesAt n t

theorem strategies_candidatesAt (n : Nat) (t : Trigger) :
    (c.candidatesAt n t).map Prod.snd = c.linkedTo t := by
  have hlinks : c.links = c.links.zipIdx.map Prod.fst := by simp
  rw [linkedTo, candidatesAt, hlinks, List.filter_map, List.map_map, List.map_map]
  simp [Function.comp_def]

theorem strategies_candidates (ts : List Trigger) :
    (c.candidates ts).map Prod.snd = ts.flatMap c.linkedTo := by
  have hts : ts = ts.zipIdx.map Prod.fst := by simp
  rw [candidates, List.map_flatMap, hts, List.flatMap_map]
  simp [strategies_candidatesAt]

theorem mem_candidates {ts : List Trigger} {p : Place} {s : Strategy} :
    (p, s) ∈ c.candidates ts ↔
      ∃ t, ts[p.trigger]? = some t ∧ c.links[p.link]? = some (t, s) := by
  obtain ⟨n, link⟩ := p
  simp [candidates, candidatesAt, List.mem_zipIdx_iff_getElem?]

theorem matches_iff {issues : List Issue} {failure : FailureKind} {p : Place} {s : Strategy} :
    c.Matches issues failure p s ↔ (p, s) ∈ c.candidates (triggers failure issues) := by
  rw [mem_candidates]
  constructor
  · rintro (⟨listed, linked⟩ | ⟨whole, linked⟩)
    · exact ⟨_, by simp [triggers, listed], linked⟩
    · exact ⟨.failure failure, by cases failure <;> first | rfl | exact absurd rfl whole, linked⟩
  · rintro ⟨t, ht, hlink⟩
    obtain ⟨n, link⟩ := p
    by_cases hkind : failure = .corrupted
    · subst hkind
      obtain ⟨i, hi, rfl⟩ : ∃ i, issues[n]? = some i ∧ Trigger.issue i.code = t := by
        simpa [triggers] using ht
      exact .issue hi hlink
    · have htriggers : triggers failure issues = [.failure failure] := by
        cases failure <;> first | rfl | exact absurd rfl hkind
      rw [htriggers] at ht
      obtain ⟨rfl, rfl⟩ : n = 0 ∧ Trigger.failure failure = t := by
        simpa [List.getElem?_singleton] using ht
      exact .failure hkind hlink

theorem pairwise_candidates (ts : List Trigger) :
    (c.candidates ts).Pairwise (·.1.Before ·.1) := by
  have hpositions {α : Type} (l : List α) : l.zipIdx.Pairwise (·.2 < ·.2) := by
    rw [← List.pairwise_map (f := Prod.snd) (R := (· < ·)), List.zipIdx_map_snd]
    exact List.pairwise_lt_range'
  refine List.pairwise_flatMap.mpr ⟨fun (t, n) _ => ?_, (hpositions ts).imp fun {a b} hlt => ?_⟩
  · refine List.pairwise_map.mpr (((hpositions c.links).filter _).imp fun hlt => ?_)
    exact Or.inr ⟨rfl, hlt⟩
  · intro x hx y hy
    obtain ⟨_, -, rfl⟩ := List.mem_map.mp hx
    obtain ⟨_, -, rfl⟩ := List.mem_map.mp hy
    exact Or.inl hlt

end Candidates

/-- A plan of the candidates seen: of those with one id the first, in the order of their places. -/
structure Firsts (seen : List (Place × Strategy)) (plan : List Strategy) : Prop where
  mem_ids : ∀ id, id ∈ plan.map (·.id) ↔ ∃ x ∈ seen, x.2.id = id
  exists_chosen : ∃ chosen : List (Place × Strategy), chosen.map Prod.snd = plan ∧
    chosen.Pairwise (·.1.Before ·.1) ∧
    ∀ x ∈ chosen, x ∈ seen ∧ ∀ y ∈ seen, y.2.id = x.2.id → ¬ y.1.Before x.1

/-- A candidate that comes after all that were seen is chosen if its id is new. -/
theorem firsts_addNew {seen : List (Place × Strategy)} {plan : List Strategy}
    (h : Firsts seen plan) {x : Place × Strategy} (hlast : ∀ y ∈ seen, y.1.Before x.1) :
    Firsts (seen ++ [x]) (addNew plan x.2) := by
  obtain ⟨chosen, hplan, hordered, hfirst⟩ := h.exists_chosen
  have hkept : ∀ z ∈ chosen, z ∈ seen ++ [x] ∧
      ∀ y ∈ seen ++ [x], y.2.id = z.2.id → ¬ y.1.Before z.1 := by
    intro z hz
    obtain ⟨hseen, hnone⟩ := hfirst z hz
    refine ⟨List.mem_append_left _ hseen, List.forall_mem_append.mpr ⟨hnone, ?_⟩⟩
    exact List.forall_mem_singleton.mpr fun _ => (hlast z hseen).asymm
  have hids : ∀ id, id ∈ (addNew plan x.2).map (·.id) ↔ ∃ y ∈ seen ++ [x], y.2.id = id := by
    intro id
    simp only [mem_ids_addNew, h.mem_ids, List.mem_append, List.mem_singleton, or_and_right,
      exists_or, exists_eq_left]
  refine ⟨hids, ?_⟩
  by_cases hx : x.2.id ∈ plan.map (·.id)
  · rw [addNew_of_planned hx]
    exact ⟨chosen, hplan, hordered, hkept⟩
  · rw [addNew_of_new hx]
    refine ⟨chosen ++ [x], by simp [hplan], ?_, ?_⟩
    · refine List.pairwise_append.mpr ⟨hordered, List.pairwise_singleton _ _, fun z hz => ?_⟩
      exact List.forall_mem_singleton.mpr (hlast z (hfirst z hz).1)
    · refine List.forall_mem_append.mpr ⟨hkept, List.forall_mem_singleton.mpr ⟨by simp, ?_⟩⟩
      -- None of those seen has the id, and the candidate itself is not before itself.
      intro y hy hid hbefore
      obtain hy | hy := List.mem_append.mp hy
      · exact hx ((h.mem_ids _).mpr ⟨y, hy, hid⟩)
      · obtain rfl := List.mem_singleton.mp hy
        exact hbefore.asymm hbefore

theorem firsts_foldl_addNew {seen rest : List (Place × Strategy)} {plan : List Strategy}
    (hordered : (seen ++ rest).Pairwise (·.1.Before ·.1)) (h : Firsts seen plan) :
    Firsts (seen ++ rest) ((rest.map Prod.snd).foldl addNew plan) := by
  induction rest generalizing seen plan with
  | nil => simpa using h
  | cons x rest ih =>
    have hsplit : seen ++ x :: rest = seen ++ [x] ++ rest := by simp
    have hlast := (List.pairwise_append.mp hordered).2.2
    rw [hsplit] at hordered ⊢
    exact ih hordered (firsts_addNew h fun y hy => hlast y hy x List.mem_cons_self)

theorem firsts_plan (c : Chain) (failure : FailureKind) (issues : List Issue) :
    Firsts (c.candidates (triggers failure issues)) (c.plan failure issues) := by
  have hnil : Firsts [] [] := ⟨by simp, [], rfl, List.Pairwise.nil, nofun⟩
  have hordered := c.pairwise_candidates (triggers failure issues)
  rw [← List.nil_append (c.candidates _)] at hordered
  rw [plan, ← strategies_candidates]
  exact firsts_foldl_addNew hordered hnil

theorem plan_of_ne {c : Chain} {failure : FailureKind} (h : failure ≠ .corrupted)
    (issues issues' : List Issue) : c.plan failure issues = c.plan failure issues' := by
  cases failure with
  | corrupted => exact absurd rfl h
  | missing | deviceIncompatible => rfl

theorem plan_append (c : Chain) (issues more : List Issue) :
    c.plan .corrupted (issues ++ more) =
      ((triggers .corrupted more).flatMap c.linkedTo).foldl addNew (c.plan .corrupted issues) := by
  simp only [plan, triggers, List.map_append, List.flatMap_append, List.foldl_append]

theorem plan_append_of_planned {c : Chain} {failure : FailureKind} {issues more : List Issue}
    (h : ∀ i ∈ more, ∀ s, (.issue i.code, s) ∈ c.links →
      s.id ∈ (c.plan failure issues).map (·.id)) :
    c.plan failure (issues ++ more) = c.plan failure issues := by
  by_cases hkind : failure = .corrupted
  · subst hkind
    rw [plan_append]
    refine foldl_addNew_of_planned fun s hs => ?_
    obtain ⟨t, ht, hs⟩ := List.mem_flatMap.mp hs
    obtain ⟨i, hi, rfl⟩ := List.mem_map.mp ht
    exact h i hi s (mem_linkedTo.mp hs)
  · exact plan_of_ne hkind _ _

theorem id_mem_plan {c : Chain} {issues : List Issue} {i : Issue} (hi : i ∈ issues) {s : Strategy}
    (hs : (.issue i.code, s) ∈ c.links) : s.id ∈ (c.plan .corrupted issues).map (·.id) := by
  obtain ⟨n, hn⟩ := List.mem_iff_getElem?.mp hi
  obtain ⟨link, hlink⟩ := List.mem_iff_getElem?.mp hs
  have hmatch : c.Matches issues .corrupted ⟨n, link⟩ s := .issue hn hlink
  exact ((firsts_plan c .corrupted issues).mem_ids s.id).mpr ⟨_, c.matches_iff.mp hmatch, rfl⟩

theorem plan_of_repeated {c : Chain} {failure : FailureKind} {earlier later : List Issue}
    {i j : Issue} (hi : i ∈ earlier) (hcode : j.code = i.code) :
    c.plan failure (earlier ++ j :: later) = c.plan failure (earlier ++ later) := by
  by_cases hkind : failure = .corrupted
  · subst hkind
    have hagain : c.plan .corrupted (earlier ++ [j]) = c.plan .corrupted earlier :=
      plan_append_of_planned fun k hk s hs => by
        obtain rfl := List.mem_singleton.mp hk
        exact id_mem_plan hi (hcode ▸ hs)
    rw [List.append_cons, plan_append, hagain, ← plan_append]
  · exact plan_of_ne hkind _ _

/-- A plan has the ids of all links that match, each once and in the order of their first places,
which is by the issues and then by the links, and each with the strategy of that place. An issue
that is listed again changes nothing, and neither do further issues whose links are all planned. -/
theorem plan_first_matching (c : Chain) (failure : FailureKind) (issues : List Issue) :
    let plan := c.plan failure issues
    (plan.map (·.id)).Nodup ∧
    (∀ id, id ∈ plan.map (·.id) ↔ ∃ p s, c.Matches issues failure p s ∧ s.id = id) ∧
    (∃ chosen : List (Place × Strategy), chosen.map Prod.snd = plan ∧
      chosen.Pairwise (·.1.Before ·.1) ∧ ∀ x ∈ chosen, c.First failure issues x.1 x.2) ∧
    (∀ earlier j later, issues = earlier ++ later → (∃ i ∈ earlier, j.code = i.code) →
      c.plan failure (earlier ++ j :: later) = plan) ∧
    ∀ more, (∀ i ∈ more, ∀ s, (.issue i.code, s) ∈ c.links → s.id ∈ plan.map (·.id)) →
      c.plan failure (issues ++ more) = plan := by
  intro plan
  have hfirsts : Firsts (c.candidates (triggers failure issues)) plan :=
    firsts_plan c failure issues
  refine ⟨c.nodup_plan failure issues, fun id => ?_, ?_, ?_, fun more => plan_append_of_planned⟩
  · rw [hfirsts.mem_ids, Prod.exists]
    simp only [matches_iff]
  · obtain ⟨chosen, hplan, hordered, hfirst⟩ := hfirsts.exists_chosen
    refine ⟨chosen, hplan, hordered, fun x hx => ?_⟩
    obtain ⟨hmem, hnone⟩ := hfirst x hx
    exact ⟨c.matches_iff.mpr hmem, fun q t ht => hnone (q, t) (c.matches_iff.mp ht)⟩
  · rintro earlier j later rfl ⟨i, hi, hcode⟩
    exact plan_of_repeated hi hcode

def crossedChain : Chain where
  links :=
    [(.issue .xmlTooSmall, .cacheLookup []), (.issue .invalidXmlFormat, .xmlRepair),
      (.issue .invalidXmlFormat, .cacheLookup [⟨"empty", fun _ _ => none⟩])]
  fallback := .manualGuidance

def malformed : Issue := ⟨.invalidXmlFormat, "malformed", .error, none⟩

def tooSmall : Issue := ⟨.xmlTooSmall, "too small", .warning, none⟩

theorem plan_first_matching_crossed :
    crossedChain.plan .corrupted [malformed, tooSmall, malformed] =
      [.xmlRepair, .cacheLookup [⟨"empty", fun _ _ => none⟩]] := by
  obtain ⟨-, -, -, hrepeated, -⟩ :=
    crossedChain.plan_first_matching .corrupted [malformed, tooSmall]
  have hagain := hrepeated [malformed, tooSmall] malformed [] rfl ⟨malformed, by simp, rfl⟩
  exact hagain.trans rfl

end Replay.Recovery.Chain
