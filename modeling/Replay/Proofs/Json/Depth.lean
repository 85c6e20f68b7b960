import Replay.Proofs.Json.Result
set_option autoImplicit false

/-!
The limit of nesting decides only whether a text is read, never as what (`Reader.value?_mono`). So
whatever the limit, the text of a value is read as that value or not at all
(`eq_sorted_of_parse_render`), and not beyond the limit, since what is read keeps within it.
-/

namespace Replay.Json

namespace Reader

section

variable {value deeper : ValueReader}
  (hvalue : ∀ {s rest : List Char} {x : Json}, value s = some (x, rest) →
    deeper s = some (x, rest))
  {s rest : List Char}
include hvalue

theorem items_mono {fuel : Nat} {done xs : List Json}
    (h : items value fuel done s = some (xs, rest)) :
    items deeper fuel done s = some (xs, rest) := by
  fun_induction items value fuel done s with
  | case1 _ _ _ _ hskip => rwa [items.eq_1 _ _ _ _ _ hskip]
  | case2 _ _ _ _ hskip _ _ hx ih =>
    rw [items.eq_2 _ _ _ _ _ hskip, hvalue hx]
    exact ih h
  | case3 => cases h
  | case4 => cases h

theorem member?_mono {m : String × Json} (h : member? value s = some (m, rest)) :
    member? deeper s = some (m, rest) := by
  unfold member? at h ⊢
  split at h
  · obtain ⟨⟨key, tail⟩, hkey, h⟩ := Option.bind_eq_some_iff.mp h
    refine Option.bind_eq_some_iff.mpr ⟨_, hkey, ?_⟩
    dsimp only at h ⊢
    split at h
    · obtain ⟨⟨x, tail'⟩, hx, h⟩ := Option.bind_eq_some_iff.mp h
      exact Option.bind_eq_some_iff.mpr ⟨_, hvalue hx, h⟩
    · cases h
  · cases h

theorem members_mono {fuel : Nat} {done ms : Members}
    (h : members value fuel done s = some (ms, rest)) :
    members deeper fuel done s = some (ms, rest) := by
  fun_induction members value fuel done s with
  | case1 _ _ _ _ hskip => rwa [members.eq_1 _ _ _ _ _ hskip]
  | case2 _ _ _ _ hskip _ _ hm ih =>
    rw [members.eq_2 _ _ _ _ _ hskip, member?_mono hvalue hm]
    exact ih h
  | case3 => cases h
  | case4 => cases h

variable {size : Nat} {j : Json}

theorem array?_mono (h : array? value size s = some (j, rest)) :
    array? deeper size s = some (j, rest) := by
  unfold array? at h ⊢
  split at h
  · exact h
  · obtain ⟨⟨x, tail⟩, hx, h⟩ := Option.bind_eq_some_iff.mp h
    obtain ⟨⟨xs, tail'⟩, hxs, h⟩ := Option.bind_eq_some_iff.mp h
    exact Option.bind_eq_some_iff.mpr ⟨_, hvalue hx,
      Option.bind_eq_some_iff.mpr ⟨_, items_mono hvalue hxs, h⟩⟩

theorem object?_mono (h : object? value size s = some (j, rest)) :
    object? deeper size s = some (j, rest) := by
  unfold object? at h ⊢
  split at h
  · exact h
  · obtain ⟨⟨m, tail⟩, hm, h⟩ := Option.bind_eq_some_iff.mp h
    obtain ⟨⟨ms, tail'⟩, hms, h⟩ := Option.bind_eq_some_iff.mp h
    exact Option.bind_eq_some_iff.mpr ⟨_, member?_mono hvalue hm,
      Option.bind_eq_some_iff.mpr ⟨_, members_mono hvalue hms, h⟩⟩

end

theorem value?_eq_of_flat {s : List Char} (harray : ¬ ∃ rest, s = '[' :: rest)
    (hobject : ¬ ∃ rest, s = '\x7b' :: rest) (size depth other : Nat) :
    value? size depth s = value? size other s := by
  by_cases hstring : ∃ rest, s = '"' :: rest
  · obtain ⟨rest, rfl⟩ := hstring
    rw [value?.eq_1, value?.eq_1]
  · have hflat (depth : Nat) := value?.eq_4 size depth s (fun rest h => hstring ⟨rest, h⟩)
      (fun _ rest _ h => harray ⟨rest, h⟩) fun _ rest _ h => hobject ⟨rest, h⟩
    rw [hflat depth, hflat other]

theorem value?_mono {size depth larger : Nat} (hle : depth ≤ larger) {s rest : List Char}
    {j : Json} (h : value? size depth s = some (j, rest)) :
    value? size larger s = some (j, rest) := by
  induction depth generalizing larger s j rest with
  | zero =>
    -- Without a level left, a text that opens one is read as a number, which it is not.
    have harray : ¬ ∃ tail, s = '[' :: tail := by
      rintro ⟨tail, rfl⟩
      cases h
    have hobject : ¬ ∃ tail, s = '\x7b' :: tail := by
      rintro ⟨tail, rfl⟩
      cases h
    rwa [value?_eq_of_flat harray hobject size larger 0]
  | succ depth ih =>
    obtain ⟨larger, rfl⟩ := Nat.exists_eq_add_one_of_ne_zero (Nat.ne_of_gt (Nat.zero_lt_of_lt hle))
    have hdeeper {s rest : List Char} {x : Json} (hx : value? size depth s = some (x, rest)) :
        value? size larger s = some (x, rest) := ih (Nat.le_of_succ_le_succ hle) hx
    by_cases harray : ∃ tail, s = '[' :: tail
    · obtain ⟨tail, rfl⟩ := harray
      exact array?_mono hdeeper h
    · by_cases hobject : ∃ tail, s = '\x7b' :: tail
      · obtain ⟨tail, rfl⟩ := hobject
        exact object?_mono hdeeper h
      · rwa [value?_eq_of_flat harray hobject size (larger + 1) (depth + 1)]

end Reader

/-- Whatever its nesting, the text of a value is read as no other value. -/
theorem eq_sorted_of_parse_render {style : Style} (hstyle : style.Spaced) {depth : Nat} {j x : Json}
    (hfits : j.Fits depth) (hint : j.Integral) (h : parse? (render style j) = some x) :
    x = j.sorted := by
  have htext : (render style j).toList = characters (pieces style 0 j) := String.toList_join
  rw [parse?, parseChars?, htext, Reader.skipSpace_pieces style hint] at h
  obtain ⟨⟨value, rest⟩, hvalue, h⟩ := Option.bind_eq_some_iff.mp h
  have hwhole := Reader.value?_pieces hstyle (hfits.mono (Nat.le_max_left depth maxDepth)) hint 0
    (Nat.le_refl _) Reader.endsNumber_nil
  rw [List.append_nil, Reader.value?_mono (Nat.le_max_right depth maxDepth) hvalue] at hwhole
  obtain ⟨rfl, rfl⟩ := Prod.mk.inj (Option.some.inj hwhole)
  exact (Option.some.inj h).symm

end Replay.Json
