import Mathlib.Data.List.Nodup
import Replay.Proofs.Cache.History
set_option autoImplicit false

/-!
The lookup of pages. Entries are compared by their ages and then by their ids, so that of entries
with different ids one comes last. The store answers with the last of the live entries that show the
page (`findByPage_eq_some`), in whatever order it goes through them; what was put before and after
what matters only as far as it shows the page (`findByPage_of_fills`).
-/

namespace Replay

namespace CacheEntry

def NoLater (a b : CacheEntry) : Prop := a.age ≤ b.age ∧ (a.age = b.age → a.id ≤ b.id)

theorem noLater_refl (e : CacheEntry) : e.NoLater e :=
  ⟨Instant.le_refl e.age, fun _ => String.le_refl e.id⟩

theorem NoLater.trans {a b c : CacheEntry} (hab : a.NoLater b) (hbc : b.NoLater c) :
    a.NoLater c := by
  refine ⟨Instant.le_trans hab.1 hbc.1, fun heq => ?_⟩
  have hages : a.age = b.age := Instant.le_antisymm hab.1 (heq ▸ hbc.1)
  exact String.le_trans (hab.2 hages) (hbc.2 (hages ▸ heq))

theorem NoLater.id_eq {a b : CacheEntry} (hab : a.NoLater b) (hba : b.NoLater a) : a.id = b.id := by
  have hages : a.age = b.age := Instant.le_antisymm hab.1 hba.1
  exact String.le_antisymm (hab.2 hages) (hba.2 hages.symm)

theorem noLater_of_before {a b : CacheEntry} (h : a.before b) : a.NoLater b := by
  rw [before] at h
  split at h
  · next hages =>
    exact ⟨hages ▸ Instant.le_refl _, fun _ => Std.le_of_lt (of_decide_eq_true h)⟩
  · next hages => exact ⟨of_decide_eq_true h, fun heq => absurd heq hages⟩

theorem noLater_of_not_before {a b : CacheEntry} (h : ¬ a.before b) : b.NoLater a := by
  rw [before] at h
  split at h
  · next hages =>
    refine ⟨hages ▸ Instant.le_refl _, fun _ => String.not_lt.mp fun hlt => ?_⟩
    exact h (decide_eq_true hlt)
  · next hages =>
    refine ⟨(Instant.le_total b.age a.age).resolve_right fun hle => ?_, fun heq => ?_⟩
    · exact h (decide_eq_true hle)
    · exact absurd heq.symm hages

/-- The last of the entries of a kind. -/
structure IsLast (kind : CacheEntry → Prop) (e : CacheEntry) : Prop where
  here : kind e
  all_noLater : ∀ x, kind x → x.NoLater e

end CacheEntry

namespace Cache

open CacheEntry

theorem later_some (a b : CacheEntry) : ∃ kept, later (some a) b = some kept ∧
    (kept = a ∨ kept = b) ∧ a.NoLater kept ∧ b.NoLater kept := by
  rw [later]
  by_cases hb : b.before a
  · exact ⟨a, if_pos hb, Or.inl rfl, noLater_refl a, noLater_of_before hb⟩
  · exact ⟨b, if_neg hb, Or.inr rfl, noLater_of_not_before hb, noLater_refl b⟩

theorem foldl_later (e : CacheEntry) (es : List CacheEntry) :
    ∃ last, es.foldl later (some e) = some last ∧ IsLast (· ∈ e :: es) last := by
  induction es generalizing e with
  | nil => exact ⟨e, rfl, by simp, by simp [noLater_refl]⟩
  | cons x es ih =>
    obtain ⟨kept, hkept, hone, he, hx⟩ := later_some e x
    obtain ⟨last, hfold, hmem, hall⟩ := ih kept
    have hlast := hall kept List.mem_cons_self
    rw [List.foldl_cons, hkept]
    refine ⟨last, hfold, ?_, List.forall_mem_cons.mpr ⟨he.trans hlast, ?_⟩⟩
    · simp only [List.mem_cons] at hmem ⊢
      obtain rfl | hmem := hmem
      · tauto
      · exact Or.inr (Or.inr hmem)
    · refine List.forall_mem_cons.mpr ⟨hx.trans hlast, fun y hy => ?_⟩
      exact hall y (List.mem_cons_of_mem kept hy)

theorem foldl_later_eq_some {es : List CacheEntry} (hids : ∀ a ∈ es, ∀ b ∈ es, a.id = b.id → a = b)
    {e : CacheEntry} : es.foldl later none = some e ↔ IsLast (· ∈ es) e := by
  cases es with
  | nil => exact ⟨nofun, fun h => nomatch h.here⟩
  | cons x es =>
    obtain ⟨last, hfold, hlast⟩ := foldl_later x es
    rw [List.foldl_cons, later, hfold, Option.some.injEq]
    constructor
    · rintro rfl
      exact hlast
    · intro h
      exact hids last hlast.here e h.here
        ((h.all_noLater last hlast.here).id_eq (hlast.all_noLater e h.here))

theorem foldl_later_eq_none {es : List CacheEntry} : es.foldl later none = none ↔ es = [] := by
  cases es with
  | nil => simp
  | cons x es =>
    obtain ⟨last, hfold, -⟩ := foldl_later x es
    simp [later, hfold]

section History

variable {history : List Event} {c : Cache} (h : Remembers history c)
  {listed : Ordered.Map String CacheEntry} (hlisted : listed.Perm c.entries) (app title : String)
include h hlisted

theorem mem_shown {e : CacheEntry} :
    e ∈ (listed.map Prod.snd).filter (fun e => e.shows app title) ↔
      Live history e ∧ e.shows app title := by
  have hlive := (lists_values h.entries_ascending h.mem_entries).mem_iff e
  rw [List.mem_filter, (hlisted.map Prod.snd).mem_iff, hlive]

/-- The store answers with the last of the live entries that show the page, in whatever order it
lists them. -/
theorem findByPage_eq_some {e : CacheEntry} :
    { c with entries := listed }.findByPage app title = some e ↔
      IsLast (fun x => Live history x ∧ x.shows app title) e := by
  have hids : ∀ a ∈ (listed.map Prod.snd).filter (fun e => e.shows app title),
      ∀ b ∈ (listed.map Prod.snd).filter (fun e => e.shows app title), a.id = b.id → a = b := by
    intro a ha b hb heq
    have hfound := (h.get?_entries a.id a).mpr ⟨rfl, ((mem_shown h hlisted app title).mp ha).1⟩
    have hfound' := (h.get?_entries b.id b).mpr ⟨rfl, ((mem_shown h hlisted app title).mp hb).1⟩
    exact Option.some.inj (hfound.symm.trans (heq ▸ hfound'))
  rw [findByPage, foldl_later_eq_some hids]
  simp only [mem_shown h hlisted app title]

theorem findByPage_eq_none : { c with entries := listed }.findByPage app title = none ↔
    ∀ e, ¬ (Live history e ∧ e.shows app title) := by
  rw [findByPage, foldl_later_eq_none, List.eq_nil_iff_forall_not_mem]
  simp only [mem_shown h hlisted app title]

end History

theorem put_id (ids : IdSource) (e : CacheEntry) (c : Cache) :
    (c |>.put ids e).1 = if Text.isBlankText e.id then ids c.generated else e.id := by
  unfold put
  split <;> rfl

/-- Of no matter to the entries that show a page: the entry does not show it, and is not stored
under the id of one of them. -/
structure Aside (ids : IdSource) (app title : String) (es : List CacheEntry) (x : CacheEntry) :
    Prop where
  not_shows : x.shows app title = false
  elsewhere : ∀ c : Cache, (c |>.put ids x).1 ∉ es.map (·.id)

/-- Entries are put, each at least once and in any order, and others only if they do not matter. -/
structure Fills (ids : IdSource) (app title : String) (es puts : List CacheEntry) : Prop where
  all_put : es ⊆ puts
  aside : ∀ x ∈ puts, x ∉ es → Aside ids app title es x

section Fills

variable {ids : IdSource} {app title : String} {es : List CacheEntry}
  (hids : (es.map (·.id)).Nodup) (hnotBlank : ∀ e ∈ es, Text.isBlankText e.id = false)
include hids hnotBlank

theorem live_puts {puts : List CacheEntry} (hputs : ∀ x ∈ puts, x ∉ es → Aside ids app title es x)
    {e : CacheEntry} (he : e.shows app title) :
    Live (run ids (puts.map .put)).1 e ↔ e ∈ es ∧ e ∈ puts := by
  induction puts using List.reverseRecOn with
  | nil => exact ⟨fun h => (not_since_nil _ _ h).elim, nofun⟩
  | append_singleton puts x ih =>
    obtain ⟨hputs, hx⟩ := List.forall_mem_append.mp hputs
    rw [List.map_append, List.map_singleton, run_snoc, live_snoc, ih hputs, List.mem_append,
      List.mem_singleton]
    generalize (run ids (puts.map .put)).2 = c
    simp only [answer, Stores, Drops]
    by_cases hmem : x ∈ es
    · have hput : (c |>.put ids x).1 = x.id := by simp [put_id, hnotBlank x hmem]
      rw [hput]
      constructor
      · rintro (rfl | ⟨⟨hes, hputs⟩, -⟩)
        · exact ⟨hmem, Or.inr rfl⟩
        · exact ⟨hes, Or.inl hputs⟩
      · rintro ⟨hes, hputs | rfl⟩
        · by_cases hid : x.id = e.id
          · exact Or.inl (List.inj_on_of_nodup_map hids hmem hes hid)
          · exact Or.inr ⟨⟨hes, hputs⟩, hid⟩
        · exact Or.inl rfl
    · obtain ⟨hnot, helsewhere⟩ := List.forall_mem_singleton.mp hx hmem
      constructor
      · rintro (rfl | ⟨⟨hes, hputs⟩, -⟩)
        · exact absurd he (Bool.eq_false_iff.mp hnot)
        · exact ⟨hes, Or.inl hputs⟩
      · rintro ⟨hes, hputs | rfl⟩
        · refine Or.inr ⟨⟨hes, hputs⟩, fun hid => helsewhere c ?_⟩
          exact hid ▸ List.mem_map_of_mem hes
        · exact absurd hes hmem

theorem live_fills {puts : List CacheEntry} (hfills : Fills ids app title es puts)
    (e : CacheEntry) : (Live (run ids (puts.map .put)).1 e ∧ e.shows app title) ↔
      e ∈ es ∧ e.shows app title :=
  and_congr_left fun he => (live_puts hids hnotBlank hfills.aside he).trans
    (and_iff_left_of_imp fun hes => hfills.all_put hes)

end Fills

/-- The answer for a page is the last of the entries that show it, and there is none only if no
entry does. It does not depend on the order in which they were put, nor on how often, nor on what
else was put aside, nor on the order in which the store lists what it has. -/
theorem findByPage_of_fills (ids : IdSource) (es : List CacheEntry) (hids : (es.map (·.id)).Nodup)
    (hnotBlank : ∀ e ∈ es, Text.isBlankText e.id = false) (app title : String) :
    let kind (e : CacheEntry) := e ∈ es ∧ e.shows app title
    let answer := (run ids (es.map .put)).2.findByPage app title
    (∀ e, answer = some e ↔ IsLast kind e) ∧ (answer = none ↔ ∀ e, ¬ kind e) ∧
    (∀ order, order.Perm es → Fills ids app title es order) ∧
    ∀ puts, Fills ids app title es puts →
      ∀ listed, listed.Perm (run ids (puts.map .put)).2.entries →
        { (run ids (puts.map .put)).2 with entries := listed }.findByPage app title = answer := by
  intro kind answer
  have hperm : ∀ order, order.Perm es → Fills ids app title es order := fun order horder =>
    ⟨horder.symm.subset, fun x hx hnot => absurd (horder.subset hx) hnot⟩
  have hlast : ∀ puts, Fills ids app title es puts →
      ∀ listed, listed.Perm (run ids (puts.map .put)).2.entries → ∀ e,
        { (run ids (puts.map .put)).2 with entries := listed }.findByPage app title = some e ↔
          IsLast kind e := by
    intro puts hfills listed hlisted e
    rw [findByPage_eq_some (remembers_run ids _) hlisted]
    simp only [live_fills hids hnotBlank hfills, kind]
  have hself := hperm es (List.Perm.refl es)
  have hanswer : ∀ e, answer = some e ↔ IsLast kind e := hlast es hself _ (List.Perm.refl _)
  refine ⟨hanswer, ?_, hperm, fun puts hfills listed hlisted => ?_⟩
  · refine (findByPage_eq_none (remembers_run ids _) (List.Perm.refl _) app title).trans ?_
    simp only [live_fills hids hnotBlank hself, kind]
  · exact Option.ext fun e => (hlast puts hfills listed hlisted e).trans (hanswer e).symm

def older : CacheEntry where
  id := "older"
  snapshot := { content := "<a/>", capturedAt := some ⟨5, 0⟩, page := { title := "Home" } }
  storedAt := ⟨9, 0⟩

def twin : CacheEntry where
  id := "twin"
  snapshot := { content := "<a/>", page := { title := "Home" } }
  storedAt := ⟨5, 0⟩

def cart : CacheEntry where
  id := "cart"
  snapshot := { content := "<a/>", page := { title := "Cart" } }
  storedAt := ⟨8, 0⟩

def bare : CacheEntry where
  snapshot := { content := "", page := { title := "Home" } }
  storedAt := ⟨9, 0⟩

theorem fills_twins :
    Fills (idsAt ⟨0, 0⟩ "x") "" "Home" [older, twin] [twin, cart, bare, older, twin] where
  all_put := by decide +kernel
  aside := by
    have hcart : Aside (idsAt ⟨0, 0⟩ "x") "" "Home" [older, twin] cart :=
      ⟨by decide +kernel, fun c => by
        rw [put_id, if_neg (by decide +kernel)]
        decide +kernel⟩
    have hbare : Aside (idsAt ⟨0, 0⟩ "x") "" "Home" [older, twin] bare := by
      refine ⟨by decide +kernel, fun c => ?_⟩
      have hblank : Text.isBlankText bare.id = true := by decide +kernel
      have hnew (rest : String) : "snap-" ++ rest ∉ ["older", "twin"] := fun hmem => by
        have hother : ∀ id ∈ ["older", "twin"], id.toList.head? ≠ some 's' := by decide +kernel
        exact hother _ hmem (by simp)
      simp only [put_id, if_pos hblank, idsAt, String.append_assoc]
      exact hnew _
    simp [hcart, hbare]

theorem findByPage_of_fills_twins :
    Fills (idsAt ⟨0, 0⟩ "x") "" "Home" [older, twin] [twin, cart, bare, older, twin] ∧
    let c := (run (idsAt ⟨0, 0⟩ "x") ([twin, cart, bare, older, twin].map .put)).2
    c.entries.map Prod.fst = ["cart", "older", "snap-0-0-x", "twin"] ∧
    { c with entries := c.entries.reverse }.findByPage "" "Home" = some twin := by
  refine ⟨fills_twins, by decide +kernel, ?_⟩
  obtain ⟨-, -, -, hsame⟩ := findByPage_of_fills (idsAt ⟨0, 0⟩ "x") [older, twin]
    (by decide +kernel) (by decide +kernel) "" "Home"
  have hanswer : (run (idsAt ⟨0, 0⟩ "x") ([older, twin].map .put)).2.findByPage "" "Home" =
      some twin := by decide +kernel
  exact (hsame _ fills_twins _ (List.reverse_perm _)).trans hanswer

end Cache

end Replay
