import Mathlib.Data.List.Basic
import Mathlib.Data.List.Induction
import Mathlib.Tactic.Tauto
import Replay.Cache.Call
import Replay.Proofs.Instant.Order
import Replay.Proofs.Ordered
set_option autoImplicit false

/-!
The store is what its history says. An entry is live from the call that stored it until a call drops
it, and a step is linked from the call that linked it until a call unlinks it (`Since`). Entries and
links come and go independently; what a call does to either is said once (`entries_answer`,
`links_answer`), and the run of calls follows by induction (`remembers_run`).
-/

namespace Replay.Cache

abbrev Event := Call × Answer

/-- The last of the events that made something so was not followed by one that ended it. -/
def Since (made ended : Event → Prop) (history : List Event) : Prop :=
  ∃ earlier event later, history = earlier ++ event :: later ∧ made event ∧
    ∀ x ∈ later, ¬ ended x

theorem not_since_nil (made ended : Event → Prop) : ¬ Since made ended [] := by
  rintro ⟨earlier, event, later, heq, -⟩
  simp at heq

theorem since_snoc {made ended : Event → Prop} {history : List Event} {last : Event} :
    Since made ended (history ++ [last]) ↔
      made last ∨ Since made ended history ∧ ¬ ended last := by
  constructor
  · rintro ⟨earlier, event, later, heq, hmade, hlater⟩
    obtain rfl | ⟨between, x, rfl⟩ := List.eq_nil_or_concat' later
    · obtain ⟨-, hlast⟩ := List.append_inj' heq rfl
      obtain rfl := List.singleton_inj.mp hlast
      exact Or.inl hmade
    · rw [← List.cons_append, ← List.append_assoc] at heq
      obtain ⟨hhistory, hlast⟩ := List.append_inj' heq rfl
      obtain rfl := List.singleton_inj.mp hlast
      obtain ⟨hbetween, hx⟩ := List.forall_mem_append.mp hlater
      exact Or.inr ⟨⟨earlier, event, between, hhistory, hmade, hbetween⟩,
        hx last (List.mem_singleton_self last)⟩
  · rintro (hmade | ⟨⟨earlier, event, later, rfl, hmade, hlater⟩, hnot⟩)
    · exact ⟨history, last, [], rfl, hmade, List.forall_mem_nil _⟩
    · refine ⟨earlier, event, later ++ [last], by simp, hmade, ?_⟩
      exact List.forall_mem_append.mpr ⟨hlater, List.forall_mem_singleton.mpr hnot⟩

def Stores (e : CacheEntry) : Event → Prop
  | (.put given, .stored id) => { given with id } = e
  | _ => False

/-- The event took the entry out of the store: another one was put under its id, or the store was
cleared, or swept of what is older than a time after the age of the entry. -/
def Drops (e : CacheEntry) : Event → Prop
  | (.put _, .stored id) => id = e.id
  | (.sweepBefore cutoff, _) => ¬ cutoff ≤ e.age
  | (.clear, _) => True
  | _ => False

def Links (l : StepLink) : Event → Prop
  | (.link made, _) => made = l
  | _ => False

def Unlinks (step : String) : Event → Prop
  | (.link made, _) => made.step = step
  | (.unlink s, _) => s = step
  | (.clear, _) => True
  | _ => False

/-- The entry was stored, and nothing has dropped it since. -/
def Live (history : List Event) (e : CacheEntry) : Prop := Since (Stores e) (Drops e) history

/-- The link was made, and nothing has taken it away since. -/
def Linked (history : List Event) (l : StepLink) : Prop :=
  Since (Links l) (Unlinks l.step) history

theorem live_snoc {history : List Event} {last : Event} {e : CacheEntry} :
    Live (history ++ [last]) e ↔ Stores e last ∨ Live history e ∧ ¬ Drops e last := since_snoc

theorem linked_snoc {history : List Event} {last : Event} {l : StepLink} :
    Linked (history ++ [last]) l ↔ Links l last ∨ Linked history l ∧ ¬ Unlinks l.step last :=
  since_snoc

structure Remembers (history : List Event) (c : Cache) : Prop where
  entries_ascending : Ordered.Ascending c.entries
  links_ascending : Ordered.Ascending c.links
  get?_entries : ∀ id e, Ordered.get? id c.entries = some e ↔ e.id = id ∧ Live history e
  get?_links : ∀ step l, Ordered.get? step c.links = some l ↔ l.step = step ∧ Linked history l

section Put

variable (ids : IdSource) (e : CacheEntry) (c : Cache)

theorem entries_put : (c |>.put ids e).2.entries =
    Ordered.insert (c |>.put ids e).1 { e with id := (c |>.put ids e).1 } c.entries := by
  unfold put
  split <;> rfl

theorem links_put : (c |>.put ids e).2.links = c.links := by
  unfold put
  split <;> rfl

end Put

theorem get?_sweepBefore {c : Cache} (h : Ordered.Ascending c.entries) (cutoff : Instant)
    (id : String) : Ordered.get? id (c.sweepBefore cutoff).entries =
      (Ordered.get? id c.entries).filter fun e => decide (cutoff ≤ e.age) :=
  Ordered.get?_filter_value (fun e : CacheEntry => decide (cutoff ≤ e.age)) h id

section Step

variable (ids : IdSource) {history : List Event} {c : Cache} (h : Remembers history c)
include h

/-- What a call does to the entries: the one that it stores is new, those that it drops are gone. -/
theorem entries_answer (call : Call) (id : String) (e : CacheEntry) :
    Ordered.get? id (c.answer ids call).2.entries = some e ↔
      e.id = id ∧ (Stores e (call, (c.answer ids call).1) ∨
        Ordered.get? id c.entries = some e ∧ ¬ Drops e (call, (c.answer ids call).1)) := by
  have hid (hfound : Ordered.get? id c.entries = some e) : e.id = id :=
    ((h.get?_entries id e).mp hfound).1
  cases call with
  | put given =>
    simp only [answer, entries_put, Stores, Drops]
    generalize (c |>.put ids given).1 = stored
    by_cases hstored : id = stored
    · subst hstored
      rw [Ordered.get?_insert_self, Option.some.injEq]
      constructor
      · rintro rfl
        exact ⟨rfl, Or.inl rfl⟩
      · rintro ⟨rfl, heq | ⟨-, hnot⟩⟩
        · exact heq
        · exact absurd rfl hnot
    · rw [Ordered.get?_insert_of_ne hstored]
      constructor
      · intro hfound
        obtain rfl := hid hfound
        exact ⟨rfl, Or.inr ⟨hfound, fun heq => hstored heq.symm⟩⟩
      · rintro ⟨rfl, rfl | ⟨hfound, -⟩⟩
        · exact absurd rfl hstored
        · exact hfound
  | sweepBefore cutoff =>
    simp only [answer, get?_sweepBefore h.entries_ascending, Option.filter_eq_some_iff,
      decide_eq_true_eq, Stores, Drops, false_or, not_not]
    exact ⟨fun hfound => ⟨hid hfound.1, hfound⟩, fun hfound => hfound.2⟩
  | clear => simp [answer, clear, Ordered.get?, Stores, Drops]
  | get | link | unlink | resolve | findByPage | stats =>
    simp only [answer, link, unlink, Stores, Drops, false_or, not_false_eq_true, and_true]
    exact ⟨fun hfound => ⟨hid hfound, hfound⟩, fun hfound => hfound.2⟩

theorem links_answer (call : Call) (step : String) (l : StepLink) :
    Ordered.get? step (c.answer ids call).2.links = some l ↔
      l.step = step ∧ (Links l (call, (c.answer ids call).1) ∨
        Ordered.get? step c.links = some l ∧ ¬ Unlinks l.step (call, (c.answer ids call).1)) := by
  have hstep (hfound : Ordered.get? step c.links = some l) : l.step = step :=
    ((h.get?_links step l).mp hfound).1
  cases call with
  | link made =>
    simp only [answer, link, Links, Unlinks]
    by_cases hmade : step = made.step
    · subst hmade
      rw [Ordered.get?_insert_self, Option.some.injEq]
      constructor
      · rintro rfl
        exact ⟨rfl, Or.inl rfl⟩
      · rintro ⟨heq, hsame | ⟨-, hnot⟩⟩
        · exact hsame
        · exact absurd heq.symm hnot
    · rw [Ordered.get?_insert_of_ne hmade]
      constructor
      · intro hfound
        obtain rfl := hstep hfound
        exact ⟨rfl, Or.inr ⟨hfound, fun heq => hmade heq.symm⟩⟩
      · rintro ⟨rfl, rfl | ⟨hfound, -⟩⟩
        · exact absurd rfl hmade
        · exact hfound
  | unlink s =>
    simp only [answer, unlink, Ordered.get?_erase h.links_ascending, Links, Unlinks, false_or]
    by_cases hs : step = s
    · rw [if_pos hs]
      constructor
      · exact fun hfound => absurd hfound.symm (Option.some_ne_none l)
      · rintro ⟨rfl, -, hnot⟩
        exact absurd hs.symm hnot
    · rw [if_neg hs]
      constructor
      · intro hfound
        obtain rfl := hstep hfound
        exact ⟨rfl, hfound, fun heq => hs heq.symm⟩
      · exact fun hfound => hfound.2.1
  | put given =>
    simp only [answer, links_put, Links, Unlinks, false_or, not_false_eq_true, and_true]
    exact ⟨fun hfound => ⟨hstep hfound, hfound⟩, fun hfound => hfound.2⟩
  | clear => simp [answer, clear, Ordered.get?, Links, Unlinks]
  | get | sweepBefore | resolve | findByPage | stats =>
    simp only [answer, sweepBefore, Links, Unlinks, false_or, not_false_eq_true, and_true]
    exact ⟨fun hfound => ⟨hstep hfound, hfound⟩, fun hfound => hfound.2⟩

theorem entries_ascending_answer (call : Call) :
    Ordered.Ascending (c.answer ids call).2.entries := by
  cases call with
  | put given =>
    simp only [answer, entries_put]
    exact Ordered.ascending_insert h.entries_ascending
  | sweepBefore cutoff => exact h.entries_ascending.filter _
  | clear => exact List.Pairwise.nil
  | get | link | unlink | resolve | findByPage | stats => exact h.entries_ascending

theorem links_ascending_answer (call : Call) :
    Ordered.Ascending (c.answer ids call).2.links := by
  cases call with
  | put given =>
    simp only [answer, links_put]
    exact h.links_ascending
  | link made => exact Ordered.ascending_insert h.links_ascending
  | unlink step => exact h.links_ascending.erase step
  | clear => exact List.Pairwise.nil
  | get | sweepBefore | resolve | findByPage | stats => exact h.links_ascending

theorem remembers_answer (call : Call) :
    Remembers (history ++ [(call, (c.answer ids call).1)]) (c.answer ids call).2 where
  entries_ascending := entries_ascending_answer ids h call
  links_ascending := links_ascending_answer ids h call
  get?_entries id e := by
    rw [entries_answer ids h, h.get?_entries, live_snoc]
    tauto
  get?_links step l := by
    rw [links_answer ids h, h.get?_links, linked_snoc]
    tauto

end Step

def run (ids : IdSource) (calls : List Call) : List Event × Cache :=
  calls.foldl (fun (history, c) call =>
    (history ++ [(call, (c.answer ids call).1)], (c.answer ids call).2)) ([], {})

theorem run_snoc (ids : IdSource) (calls : List Call) (call : Call) :
    run ids (calls ++ [call]) =
      ((run ids calls).1 ++ [(call, ((run ids calls).2.answer ids call).1)],
        ((run ids calls).2.answer ids call).2) := by
  simp [run]

theorem remembers_run (ids : IdSource) (calls : List Call) :
    Remembers (run ids calls).1 (run ids calls).2 := by
  induction calls using List.reverseRecOn with
  | nil => exact ⟨List.Pairwise.nil, List.Pairwise.nil,
      fun _ _ => ⟨nofun, fun h => (not_since_nil _ _ h.2).elim⟩,
      fun _ _ => ⟨nofun, fun h => (not_since_nil _ _ h.2).elim⟩⟩
  | append_singleton calls call ih =>
    rw [run_snoc]
    exact remembers_answer ids ih call

theorem calls_run (ids : IdSource) (calls : List Call) :
    (run ids calls).1.map Prod.fst = calls := by
  induction calls using List.reverseRecOn with
  | nil => rfl
  | append_singleton calls call ih => rw [run_snoc, List.map_append, ih, List.map_singleton]

namespace Remembers

variable {history : List Event} {c : Cache} (h : Remembers history c)
include h

theorem mem_entries (p : String × CacheEntry) : p ∈ c.entries ↔ p.2.id = p.1 ∧ Live history p.2 := by
  rw [← h.get?_entries]
  exact ⟨Ordered.get?_of_mem h.entries_ascending, Ordered.mem_of_get?⟩

theorem mem_links (p : String × StepLink) : p ∈ c.links ↔ p.2.step = p.1 ∧ Linked history p.2 := by
  rw [← h.get?_links]
  exact ⟨Ordered.get?_of_mem h.links_ascending, Ordered.mem_of_get?⟩

end Remembers

structure Lists {α : Type} (kind : α → Prop) (xs : List α) : Prop where
  nodup : xs.Nodup
  mem_iff : ∀ x, x ∈ xs ↔ kind x

theorem Lists.filter {α : Type} {kind : α → Prop} {xs : List α} (h : Lists kind xs) (p : α → Bool) :
    Lists (fun x => kind x ∧ p x) (xs.filter p) :=
  ⟨h.nodup.filter p, fun x => by rw [List.mem_filter, h.mem_iff]⟩

theorem lists_values {α : Type} {key : α → String} {kind : α → Prop} {m : Ordered.Map String α}
    (hm : Ordered.Ascending m) (hmem : ∀ p, p ∈ m ↔ key p.2 = p.1 ∧ kind p.2) :
    Lists kind (m.map Prod.snd) where
  nodup := by
    refine List.pairwise_map.mpr (hm.imp_of_mem fun {a b} ha hb hlt heq => ?_)
    have hkeys : a.1 = b.1 := by rw [← ((hmem a).mp ha).1, ← ((hmem b).mp hb).1, heq]
    rw [hkeys] at hlt
    exact Std.Irrefl.irrefl _ hlt
  mem_iff x := by
    constructor
    · intro hx
      obtain ⟨p, hp, rfl⟩ := List.mem_map.mp hx
      exact ((hmem p).mp hp).2
    · exact fun hx => List.mem_map.mpr ⟨(key x, x), (hmem _).mpr ⟨rfl, hx⟩, rfl⟩

def IsEarliest (ts : List Instant) (t : Instant) : Prop := t ∈ ts ∧ ∀ x ∈ ts, t ≤ x

theorem foldl_earlier (t : Instant) (ts : List Instant) :
    ∃ least, ts.foldl earlier (some t) = some least ∧ IsEarliest (t :: ts) least := by
  induction ts generalizing t with
  | nil => exact ⟨t, rfl, by simp [IsEarliest, Instant.le_refl]⟩
  | cons x ts ih =>
    rw [List.foldl_cons, earlier]
    by_cases htx : t ≤ x
    · rw [if_pos htx]
      obtain ⟨least, hfold, hmem, hle⟩ := ih t
      obtain ⟨ht, hle⟩ := List.forall_mem_cons.mp hle
      refine ⟨least, hfold, by simp at hmem ⊢; tauto, ?_⟩
      exact List.forall_mem_cons.mpr
        ⟨ht, List.forall_mem_cons.mpr ⟨Instant.le_trans ht htx, hle⟩⟩
    · rw [if_neg htx]
      obtain ⟨least, hfold, hmem, hle⟩ := ih x
      have hxt : x ≤ t := (Instant.le_total t x).resolve_left htx
      have hx := hle x List.mem_cons_self
      exact ⟨least, hfold, List.mem_cons_of_mem t hmem,
        List.forall_mem_cons.mpr ⟨Instant.le_trans hx hxt, hle⟩⟩

theorem foldl_earlier_eq_some {ts : List Instant} {t : Instant} :
    ts.foldl earlier none = some t ↔ IsEarliest ts t := by
  cases ts with
  | nil => simp [IsEarliest]
  | cons x ts =>
    obtain ⟨least, hfold, hmem, hle⟩ := foldl_earlier x ts
    rw [List.foldl_cons, earlier, hfold, Option.some.injEq]
    constructor
    · rintro rfl
      exact ⟨hmem, hle⟩
    · exact fun ⟨hmem', hle'⟩ => Instant.le_antisymm (hle t hmem') (hle' least hmem)

theorem length_sweepBefore (c : Cache) (cutoff : Instant) :
    c.entries.length - (c.sweepBefore cutoff).entries.length =
      ((c.entries.map Prod.snd).filter fun e => !decide (cutoff ≤ e.age)).length := by
  have hsplit := List.length_eq_length_filter_add (l := c.entries)
    fun p => decide (cutoff ≤ p.2.age)
  have hkept : (c.sweepBefore cutoff).entries =
      c.entries.filter fun p => decide (cutoff ≤ p.2.age) := rfl
  rw [List.filter_map, List.length_map, hkept, hsplit]
  exact Nat.add_sub_cancel_left _ _

/-- The figures are those of the live entries and of the links. -/
structure Figures (history : List Event) (s : CacheStats) (live : List CacheEntry)
    (links : List StepLink) : Prop where
  live_lists : Lists (Live history) live
  links_lists : Lists (Linked history) links
  entries_eq : s.entries = live.length
  links_eq : s.links = links.length
  totalBytes_eq : s.totalBytes = total (live.map (·.snapshot.size))
  oldest_iff : ∀ t, s.oldestCapture = some t ↔ IsEarliest (live.map (·.age)) t

/-- What the store answers is determined by its history, whatever the calls and the generated ids
are. A step resolves to the entry and the link that its history says, an id to the entry that is live
under it, and to nothing else. The figures count the live entries and the links, a sweep tells how
many live entries it removes, and reading changes nothing. -/
theorem answers_by_history (ids : IdSource) (calls : List Call) :
    let history := (run ids calls).1
    let c := (run ids calls).2
    history.map Prod.fst = calls ∧
    (∀ step e l, c.resolve? step = some (e, l) ↔
      l.step = step ∧ Linked history l ∧ e.id = l.entry ∧ Live history e) ∧
    (∀ id e, c.get? id = some e ↔ e.id = id ∧ Live history e) ∧
    (∃ live links, Figures history c.stats live links) ∧
    (∀ cutoff, ∃ gone, Lists (fun e => Live history e ∧ ¬ cutoff ≤ e.age) gone ∧
      (c.answer ids (.sweepBefore cutoff)).1 = .removed gone.length) ∧
    ∀ call, call.isRead → (c.answer ids call).2 = c := by
  intro history c
  have h : Remembers history c := remembers_run ids calls
  have hlive : Lists (Live history) (c.entries.map Prod.snd) :=
    lists_values h.entries_ascending h.mem_entries
  have hlinks : Lists (Linked history) (c.links.map Prod.snd) :=
    lists_values h.links_ascending h.mem_links
  refine ⟨calls_run ids calls, fun step e l => ?_, h.get?_entries, ⟨_, _, hlive, hlinks, ?_, ?_, ?_,
    fun t => ?_⟩, fun cutoff => ?_, fun call hread => ?_⟩
  · simp only [resolve?, get?, Option.bind_eq_bind, Option.bind_eq_some_iff, Option.pure_def]
    constructor
    · rintro ⟨l', hl, e', he, heq⟩
      obtain ⟨rfl, rfl⟩ := Prod.mk.inj (Option.some.inj heq)
      obtain ⟨hstep, hlinked⟩ := (h.get?_links step _).mp hl
      exact ⟨hstep, hlinked, (h.get?_entries _ _).mp he⟩
    · rintro ⟨hstep, hlinked, he⟩
      exact ⟨l, (h.get?_links step l).mpr ⟨hstep, hlinked⟩, e, (h.get?_entries _ e).mpr he, rfl⟩
  · rw [List.length_map]
    rfl
  · rw [List.length_map]
    rfl
  · rw [List.map_map]
    rfl
  · rw [stats, foldl_earlier_eq_some, List.map_map]
    rfl
  · have hgone := hlive.filter fun e => !decide (cutoff ≤ e.age)
    refine ⟨_, ⟨hgone.nodup, fun e => ?_⟩, congrArg Answer.removed (length_sweepBefore c cutoff)⟩
    rw [hgone.mem_iff]
    simp
  · cases call with
    | get | resolve | findByPage | stats => rfl
    | put | link | unlink | sweepBefore | clear => cases hread

end Replay.Cache
