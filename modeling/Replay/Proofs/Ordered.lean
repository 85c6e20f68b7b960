import Replay.Ordered
set_option autoImplicit false

/-!
Maps in ascending order of their keys. Sorting a list of pairs yields one (`ascending_ofList`) and
does nothing to a list that is one (`ofList_of_ascending`); what is found in it is the last value
under a key (`get?_ofList_append`), and of pairs with different keys none is lost (`perm_ofList`).
-/

namespace Replay.Ordered

section

variable {κ α : Type}

theorem mem_of_get? [DecidableEq κ] {key : κ} {m : Map κ α} {value : α}
    (h : get? key m = some value) : (key, value) ∈ m := by
  induction m with
  | nil => cases h
  | cons pair m ih =>
    obtain ⟨k, v⟩ := pair
    rw [get?] at h
    split at h
    · next hk =>
      obtain rfl := Option.some.inj h
      rw [hk]
      exact List.mem_cons_self
    · exact List.mem_cons_of_mem _ (ih h)

theorem get?_eq_none [DecidableEq κ] {key : κ} {m : Map κ α} :
    get? key m = none ↔ key ∉ m.map Prod.fst := by
  induction m with
  | nil => simp [get?]
  | cons pair m ih =>
    obtain ⟨k, v⟩ := pair
    rw [get?, List.map_cons, List.mem_cons, not_or, ← ih]
    by_cases hk : key = k
    · simp [hk]
    · simp [hk]

theorem get?_filter [DecidableEq κ] (p : κ → Bool) (key : κ) (m : Map κ α) :
    get? key (m.filter fun (k, _) => p k) = if p key then get? key m else none := by
  induction m with
  | nil => simp [get?]
  | cons pair m ih =>
    obtain ⟨k, v⟩ := pair
    rw [List.filter_cons]
    by_cases hk : key = k
    · subst hk
      by_cases hp : p key
      · simp [hp, get?]
      · simp [hp, ih]
    · by_cases hp : p k
      · simp [hp, get?, hk, ih]
      · simp [hp, get?, hk, ih]

theorem sublist_erase [DecidableEq κ] (key : κ) (m : Map κ α) : (erase key m).Sublist m := by
  induction m with
  | nil => exact List.Sublist.refl _
  | cons pair m ih =>
    obtain ⟨k, v⟩ := pair
    rw [erase]
    split
    · exact List.sublist_cons_self _ _
    · exact ih.cons_cons _

end

section

variable {κ α : Type} [LT κ]

def Ascending (m : Map κ α) : Prop := m.Pairwise fun a b => a.1 < b.1

theorem Ascending.filter {m : Map κ α} (h : Ascending m) (p : κ × α → Bool) :
    Ascending (m.filter p) := List.Pairwise.filter p h

theorem Ascending.nodup_keys [Std.Irrefl (fun a b : κ => a < b)] {m : Map κ α} (h : Ascending m) :
    (m.map Prod.fst).Nodup := by
  refine List.pairwise_map.mpr (h.imp fun {a b} hlt heq => ?_)
  rw [heq] at hlt
  exact Std.Irrefl.irrefl _ hlt

theorem ne_of_mem [Std.Irrefl (fun a b : κ => a < b)] {m : Map κ α} {k : κ} {v : α}
    (h : Ascending ((k, v) :: m)) {pair : κ × α} (hpair : pair ∈ m) : pair.1 ≠ k := by
  intro heq
  have hlt := (List.pairwise_cons.mp h).1 pair hpair
  rw [heq] at hlt
  exact Std.Irrefl.irrefl k hlt

variable [DecidableEq κ]

theorem get?_of_lt [Std.Irrefl (fun a b : κ => a < b)] {key : κ} {m : Map κ α}
    (h : ∀ pair ∈ m, key < pair.1) : get? key m = none := by
  rw [get?_eq_none]
  intro hmem
  obtain ⟨pair, hpair, rfl⟩ := List.mem_map.mp hmem
  exact Std.Irrefl.irrefl _ (h pair hpair)

section

variable [Trans (fun a b : κ => a < b) (fun a b : κ => a < b) (fun a b : κ => a < b)]
  [Std.Irrefl (fun a b : κ => a < b)]

theorem not_lt_first {key k : κ} {value v : α} {m : Map κ α} (h : Ascending ((k, v) :: m))
    (hfound : get? key ((k, v) :: m) = some value) : ¬ key < k := by
  intro hlt
  have hnone : get? key ((k, v) :: m) = none :=
    get?_of_lt (List.forall_mem_cons.mpr
      ⟨hlt, fun pair hpair => Trans.trans hlt ((List.pairwise_cons.mp h).1 pair hpair)⟩)
  rw [hnone] at hfound
  cases hfound

theorem ext_get? [Std.Trichotomous (fun a b : κ => a < b)] {a b : Map κ α} (ha : Ascending a)
    (hb : Ascending b) (h : ∀ key, get? key a = get? key b) : a = b := by
  induction a generalizing b with
  | nil =>
    cases b with
    | nil => rfl
    | cons pair b =>
      have hfirst := h pair.1
      simp [get?] at hfirst
  | cons pair a ih =>
    obtain ⟨k, v⟩ := pair
    have hself : get? k ((k, v) :: a) = some v := if_pos rfl
    cases b with
    | nil =>
      rw [h k] at hself
      cases hself
    | cons pair' b =>
      obtain ⟨k', v'⟩ := pair'
      have hself' : get? k' ((k', v') :: b) = some v' := if_pos rfl
      obtain rfl : k = k' := Std.Trichotomous.trichotomous k k'
        (not_lt_first hb (h k ▸ hself)) (not_lt_first ha (h k' ▸ hself'))
      obtain rfl : v = v' := Option.some.inj (hself.symm.trans ((h k).trans hself'))
      obtain ⟨hk, ha⟩ := List.pairwise_cons.mp ha
      obtain ⟨hk', hb⟩ := List.pairwise_cons.mp hb
      rw [ih ha hb]
      intro key
      by_cases hkey : key = k
      · rw [hkey, get?_of_lt hk, get?_of_lt hk']
      · have hrest := h key
        rwa [get?, get?, if_neg hkey, if_neg hkey] at hrest

end

theorem Ascending.erase {m : Map κ α} (h : Ascending m) (key : κ) : Ascending (erase key m) :=
  List.Pairwise.sublist (sublist_erase key m) h

section

variable [Std.Irrefl (fun a b : κ => a < b)] {m : Map κ α}

theorem get?_of_mem {key : κ} {value : α} (h : Ascending m) (hmem : (key, value) ∈ m) :
    get? key m = some value := by
  induction m with
  | nil => cases hmem
  | cons pair m ih =>
    obtain ⟨k, v⟩ := pair
    obtain heq | hmem := List.mem_cons.mp hmem
    · obtain ⟨rfl, rfl⟩ := Prod.mk.inj heq
      exact if_pos rfl
    · rw [get?, if_neg (ne_of_mem h hmem)]
      exact ih (List.pairwise_cons.mp h).2 hmem

theorem get?_tail {k : κ} {v : α} (h : Ascending ((k, v) :: m)) : get? k m = none := by
  rw [get?_eq_none]
  intro hmem
  obtain ⟨pair, hpair, heq⟩ := List.mem_map.mp hmem
  exact ne_of_mem h hpair heq

theorem get?_erase (h : Ascending m) (key other : κ) :
    get? other (erase key m) = if other = key then none else get? other m := by
  induction m with
  | nil => simp [erase, get?]
  | cons pair m ih =>
    obtain ⟨k, v⟩ := pair
    rw [erase]
    by_cases hkey : key = k
    · subst hkey
      rw [if_pos rfl]
      by_cases hother : other = key
      · rw [hother, if_pos rfl, get?_tail h]
      · rw [if_neg hother, get?, if_neg hother]
    · rw [if_neg hkey, get?, get?, ih (List.pairwise_cons.mp h).2]
      by_cases hother : other = k
      · rw [if_pos hother, if_pos hother, if_neg fun heq => hkey (heq.symm.trans hother)]
      · rw [if_neg hother, if_neg hother]

theorem get?_filter_value (p : α → Bool) (h : Ascending m) (key : κ) :
    get? key (m.filter fun (_, v) => p v) = (get? key m).filter p := by
  induction m with
  | nil => rfl
  | cons pair m ih =>
    obtain ⟨k, v⟩ := pair
    have hrest := ih (List.pairwise_cons.mp h).2
    rw [List.filter_cons]
    by_cases hkey : key = k
    · subst hkey
      by_cases hp : p v
      · simp [hp, get?, Option.filter_some]
      · simp [hp, get?, hrest, get?_tail h, Option.filter_some]
    · by_cases hp : p v
      · simp [hp, get?, hkey, hrest]
      · simp [hp, get?, hkey, hrest]

end

variable [DecidableLT κ]

theorem mem_insert {key : κ} {value : α} {m : Map κ α} {pair : κ × α}
    (h : pair ∈ insert key value m) : pair = (key, value) ∨ pair ∈ m := by
  induction m with
  | nil => exact Or.inl (List.mem_singleton.mp h)
  | cons first m ih =>
    obtain ⟨k, v⟩ := first
    rw [insert] at h
    split at h
    · exact List.mem_cons.mp h
    · split at h
      · exact (List.mem_cons.mp h).imp_right (List.mem_cons_of_mem _)
      · obtain rfl | h := List.mem_cons.mp h
        · exact Or.inr List.mem_cons_self
        · exact (ih h).imp_right (List.mem_cons_of_mem _)

def insertAll (pairs : List (κ × α)) (m : Map κ α) : Map κ α :=
  pairs.foldl (fun m (k, v) => insert k v m) m

theorem ofList_eq (pairs : List (κ × α)) : ofList pairs = insertAll pairs [] := rfl

@[simp] theorem insertAll_cons (k : κ) (v : α) (pairs : List (κ × α)) (m : Map κ α) :
    insertAll ((k, v) :: pairs) m = insertAll pairs (insert k v m) := rfl

theorem mem_insertAll {pairs : List (κ × α)} {m : Map κ α} {pair : κ × α}
    (h : pair ∈ insertAll pairs m) : pair ∈ m ∨ pair ∈ pairs := by
  induction pairs generalizing m with
  | nil => exact Or.inl h
  | cons first pairs ih =>
    obtain ⟨k, v⟩ := first
    obtain h | h := ih h
    · obtain rfl | h := mem_insert h
      · exact Or.inr List.mem_cons_self
      · exact Or.inl h
    · exact Or.inr (List.mem_cons_of_mem _ h)

theorem mem_ofList {pairs : List (κ × α)} {pair : κ × α} (h : pair ∈ ofList pairs) :
    pair ∈ pairs := (mem_insertAll h).resolve_left List.not_mem_nil

/-- What was put in later is found, or else what was there before. -/
theorem get?_insertAll (pairs : List (κ × α)) (key : κ) (m : Map κ α) :
    get? key (insertAll pairs m) = (get? key (ofList pairs)).or (get? key m) := by
  induction pairs generalizing m with
  | nil => rfl
  | cons first pairs ih =>
    obtain ⟨k, v⟩ := first
    rw [ofList_eq, insertAll_cons, insertAll_cons, ih, ih (insert k v [])]
    by_cases hk : key = k
    · rw [hk, get?_insert_self, get?_insert_self]
      cases get? k (ofList pairs) <;> rfl
    · rw [get?_insert_of_ne hk, get?_insert_of_ne hk]
      cases get? key (ofList pairs) <;> rfl

theorem get?_ofList_append (a b : List (κ × α)) (key : κ) :
    get? key (ofList (a ++ b)) = (get? key (ofList b)).or (get? key (ofList a)) := by
  have hsplit : ofList (a ++ b) = insertAll b (ofList a) := List.foldl_append
  rw [hsplit, get?_insertAll]

theorem perm_insert {key : κ} {m : Map κ α} (h : key ∉ m.map Prod.fst) (value : α) :
    (insert key value m).Perm ((key, value) :: m) := by
  induction m with
  | nil => exact List.Perm.refl _
  | cons first m ih =>
    obtain ⟨k, v⟩ := first
    obtain ⟨hk, hm⟩ := not_or.mp (mt List.mem_cons.mpr h)
    rw [insert, if_neg hk]
    split
    · exact List.Perm.refl _
    · exact ((ih hm).cons _).trans (List.Perm.swap _ _ _)

theorem perm_insertAll {pairs m : Map κ α} (h : ((pairs ++ m).map Prod.fst).Nodup) :
    (insertAll pairs m).Perm (pairs ++ m) := by
  induction pairs generalizing m with
  | nil => exact List.Perm.refl _
  | cons first pairs ih =>
    obtain ⟨k, v⟩ := first
    have hnew : k ∉ m.map Prod.fst := by
      have hk : k ∉ (pairs ++ m).map Prod.fst := (List.nodup_cons.mp h).1
      exact fun hmem => hk (List.map_append ▸ List.mem_append_right _ hmem)
    have hplaced : (pairs ++ insert k v m).Perm ((k, v) :: pairs ++ m) :=
      ((perm_insert hnew v).append_left pairs).trans List.perm_middle
    rw [insertAll_cons]
    exact (ih ((hplaced.map Prod.fst).nodup_iff.mpr h)).trans hplaced

theorem perm_ofList {pairs : List (κ × α)} (h : (pairs.map Prod.fst).Nodup) :
    (ofList pairs).Perm pairs := by
  have hall : (insertAll pairs []).Perm (pairs ++ []) :=
    perm_insertAll (by rwa [List.append_nil])
  rwa [List.append_nil] at hall

variable [Trans (fun a b : κ => a < b) (fun a b : κ => a < b) (fun a b : κ => a < b)]

section

variable [Std.Trichotomous (fun a b : κ => a < b)]

theorem ascending_insert {key : κ} {value : α} {m : Map κ α} (h : Ascending m) :
    Ascending (insert key value m) := by
  induction m with
  | nil => exact List.pairwise_singleton _ _
  | cons first m ih =>
    obtain ⟨k, v⟩ := first
    obtain ⟨hfirst, hrest⟩ := List.pairwise_cons.mp h
    rw [insert]
    split
    · next hlt =>
      refine List.pairwise_cons.mpr ⟨?_, h⟩
      rintro pair (_ | ⟨_, hmem⟩)
      · exact hlt
      · exact Trans.trans hlt (hfirst pair hmem)
    · next hnot =>
      split
      · next heq =>
        subst heq
        exact List.pairwise_cons.mpr ⟨hfirst, hrest⟩
      · next hne =>
        have hlt : k < key := Decidable.byContradiction fun hno =>
          hne (Std.Trichotomous.trichotomous key k hnot hno)
        refine List.pairwise_cons.mpr ⟨fun pair hmem => ?_, ih hrest⟩
        obtain rfl | hmem := mem_insert hmem
        · exact hlt
        · exact hfirst pair hmem

theorem ascending_ofList (pairs : List (κ × α)) : Ascending (ofList pairs) := by
  have hall (m : Map κ α) (hm : Ascending m) : Ascending (insertAll pairs m) := by
    induction pairs generalizing m with
    | nil => exact hm
    | cons first pairs ih => exact ih _ (ascending_insert hm)
  exact hall [] List.Pairwise.nil

end

section

variable [Std.Irrefl (fun a b : κ => a < b)]

theorem insert_of_forall_lt {key : κ} {value : α} {m : Map κ α} (h : ∀ pair ∈ m, pair.1 < key) :
    insert key value m = m ++ [(key, value)] := by
  induction m with
  | nil => rfl
  | cons first m ih =>
    obtain ⟨k, v⟩ := first
    have hk : k < key := h (k, v) List.mem_cons_self
    have hnot : ¬ key < k := fun hlt => Std.Irrefl.irrefl k (Trans.trans hk hlt)
    have hne : key ≠ k := fun heq => Std.Irrefl.irrefl k (heq ▸ hk)
    rw [insert, if_neg hnot, if_neg hne, ih fun pair hp => h pair (List.mem_cons_of_mem _ hp)]
    rfl

/-- What is put in order in whatever way it was listed. -/
theorem ofList_of_perm [Std.Trichotomous (fun a b : κ => a < b)] {pairs m : Map κ α}
    (hm : Ascending m) (h : pairs.Perm m) : ofList pairs = m := by
  have hnodup : (pairs.map Prod.fst).Nodup := (h.map Prod.fst).nodup_iff.mpr hm.nodup_keys
  refine List.Perm.eq_of_pairwise (fun a b _ _ hab hba => ?_) (ascending_ofList pairs) hm
    ((perm_ofList hnodup).trans h)
  exact absurd (Trans.trans hab hba) (Std.Irrefl.irrefl a.1)

theorem insertAll_of_ascending {pairs m : Map κ α} (h : Ascending (m ++ pairs)) :
    insertAll pairs m = m ++ pairs := by
  induction pairs generalizing m with
  | nil => exact (List.append_nil m).symm
  | cons first pairs ih =>
    obtain ⟨k, v⟩ := first
    have hlast := (List.pairwise_append.mp h).2.2
    have hsplit : m ++ (k, v) :: pairs = m ++ [(k, v)] ++ pairs := by simp
    rw [insertAll_cons, insert_of_forall_lt fun pair hp => hlast pair hp _ List.mem_cons_self,
      hsplit]
    exact ih (hsplit ▸ h)

theorem ofList_of_ascending {m : Map κ α} (h : Ascending m) : ofList m = m :=
  insertAll_of_ascending (m := []) h

end

end

end Replay.Ordered
