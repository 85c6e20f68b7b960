import Replay.Proofs.Json.Reading
import Replay.Proofs.Ordered
set_option autoImplicit false

namespace Replay.Json

inductive InOrder : Json → Prop where
  | null : InOrder .null
  | bool {b : Bool} : InOrder (.bool b)
  | number {n : Number} : InOrder (.number n)
  | string {s : String} : InOrder (.string s)
  | array {items : List Json} (h : ∀ x ∈ items, InOrder x) : InOrder (.array items)
  | object {members : Members} (hkeys : Ordered.Ascending members)
      (h : ∀ m ∈ members, InOrder m.2) : InOrder (.object members)

theorem InOrder.sorted_eq {j : Json} (h : j.InOrder) : j.sorted = j := by
  induction h with
  | null | bool | number | string => rfl
  | @array items _ ih =>
    have hitems : items.map sorted = items := (List.map_congr_left ih).trans (List.map_id _)
    rw [sorted, sortedItems_eq, hitems]
  | @object members hkeys _ ih =>
    have hmembers : sortedMembers members = members := by
      rw [sortedMembers_eq]
      refine (List.map_congr_left fun m hm => ?_).trans (List.map_id _)
      obtain ⟨key, x⟩ := m
      exact congrArg (key, ·) (ih _ hm)
    rw [sorted, hmembers, Ordered.ofList_of_ascending hkeys]

def Result (depth : Nat) (j : Json) : Prop := j.Fits depth ∧ j.InOrder

theorem Result.items {depth : Nat} {items : List Json} (h : Result (depth + 1) (.array items)) :
    ∀ x ∈ items, Result depth x := by
  obtain ⟨hfits, horder⟩ := h
  cases hfits with
  | array hfits =>
    cases horder with
    | array horder => exact fun x hx => ⟨hfits x hx, horder x hx⟩

theorem Result.members {depth : Nat} {members : Members}
    (h : Result (depth + 1) (.object members)) :
    Ordered.Ascending members ∧ ∀ m ∈ members, Result depth m.2 := by
  obtain ⟨hfits, horder⟩ := h
  cases hfits with
  | object hfits =>
    cases horder with
    | object hkeys horder => exact ⟨hkeys, fun m hm => ⟨hfits m hm, horder m hm⟩⟩

theorem Fits.result_sorted {depth : Nat} {j : Json} (h : j.Fits depth) : j.sorted.Result depth := by
  induction h with
  | null => exact ⟨.null, .null⟩
  | bool => exact ⟨.bool, .bool⟩
  | number h => exact ⟨.number h, .number⟩
  | string => exact ⟨.string, .string⟩
  | @array depth items _ ih =>
    have hitems : ∀ x ∈ items.map sorted, x.Result depth := List.forall_mem_map.mpr ih
    rw [sorted, sortedItems_eq]
    exact ⟨.array fun x hx => (hitems x hx).1, .array fun x hx => (hitems x hx).2⟩
  | @object depth members _ ih =>
    have hmembers : ∀ m ∈ Ordered.ofList (sortedMembers members), m.2.Result depth := by
      intro m hm
      have hm := Ordered.mem_ofList hm
      rw [sortedMembers_eq] at hm
      obtain ⟨⟨key, x⟩, hx, rfl⟩ := List.mem_map.mp hm
      exact ih _ hx
    rw [sorted]
    exact ⟨.object fun m hm => (hmembers m hm).1,
      .object (Ordered.ascending_ofList _) fun m hm => (hmembers m hm).2⟩

namespace Reader

theorem result_of_number {s rest : List Char} {j : Json} (h : number? s = some (j, rest))
    (depth : Nat) : Result depth j := by
  obtain ⟨⟨text, rest'⟩, -, h⟩ := Option.bind_eq_some_iff.mp h
  obtain ⟨n, hn, h⟩ := Option.bind_eq_some_iff.mp h
  obtain ⟨rfl, -⟩ := Prod.mk.inj (Option.some.inj h)
  refine ⟨.number ?_, .number⟩
  unfold NumberText.value? at hn
  dsimp only at hn
  split at hn
  · next hrange =>
    obtain rfl := Option.some.inj hn
    have hsize : UInt64.size = 0x10000000000000000 := rfl
    obtain ⟨-, -, -, hlt⟩ := hrange
    exact ⟨by omega, by omega⟩
  · split at hn
    · next hrange =>
      obtain rfl := Option.some.inj hn
      obtain ⟨-, -, -, hpos, hle⟩ := hrange
      exact ⟨by omega, by omega⟩
    · obtain ⟨x, -, rfl⟩ := Option.map_eq_some_iff.mp hn
      trivial

section

variable {P : Json → Prop} {value : ValueReader}
  (hvalue : ∀ {s rest : List Char} {x : Json}, value s = some (x, rest) → P x)
include hvalue

theorem forall_items {fuel : Nat} {done xs : List Json} {s rest : List Char}
    (hdone : ∀ x ∈ done, P x) (h : items value fuel done s = some (xs, rest)) : ∀ x ∈ xs, P x := by
  fun_induction items value fuel done s with
  | case1 =>
    obtain ⟨rfl, -⟩ := Prod.mk.inj (Option.some.inj h)
    exact fun x hx => hdone x (List.mem_reverse.mp hx)
  | case2 _ _ _ _ _ x _ hx ih =>
    refine ih ?_ h
    rintro y (_ | ⟨_, hy⟩)
    · exact hvalue hx
    · exact hdone y hy
  | case3 => cases h
  | case4 => cases h

theorem of_member {s rest : List Char} {m : String × Json} (h : member? value s = some (m, rest)) :
    P m.2 := by
  unfold member? at h
  split at h
  · obtain ⟨⟨key, tail⟩, -, h⟩ := Option.bind_eq_some_iff.mp h
    dsimp only at h
    split at h
    · obtain ⟨⟨x, tail'⟩, hx, h⟩ := Option.bind_eq_some_iff.mp h
      obtain ⟨rfl, -⟩ := Prod.mk.inj (Option.some.inj h)
      exact hvalue hx
    · cases h
  · cases h

theorem forall_members {fuel : Nat} {done ms : Members} {s rest : List Char}
    (hdone : ∀ m ∈ done, P m.2) (h : members value fuel done s = some (ms, rest)) :
    ∀ m ∈ ms, P m.2 := by
  fun_induction members value fuel done s with
  | case1 =>
    obtain ⟨rfl, -⟩ := Prod.mk.inj (Option.some.inj h)
    exact fun m hm => hdone m (List.mem_reverse.mp hm)
  | case2 _ _ _ _ _ m _ hm ih =>
    refine ih ?_ h
    rintro m' (_ | ⟨_, hm'⟩)
    · exact of_member hvalue hm
    · exact hdone m' hm'
  | case3 => cases h
  | case4 => cases h

end

variable {depth size : Nat} {value : ValueReader}
  (hvalue : ∀ {s rest : List Char} {x : Json}, value s = some (x, rest) → Result depth x)
  {s rest : List Char} {j : Json}
include hvalue

theorem result_of_array (h : array? value size s = some (j, rest)) : Result (depth + 1) j := by
  unfold array? at h
  split at h
  · obtain ⟨rfl, -⟩ := Prod.mk.inj (Option.some.inj h)
    exact ⟨.array nofun, .array nofun⟩
  · obtain ⟨⟨x, tail⟩, hx, h⟩ := Option.bind_eq_some_iff.mp h
    obtain ⟨⟨xs, tail'⟩, hxs, h⟩ := Option.bind_eq_some_iff.mp h
    obtain ⟨rfl, -⟩ := Prod.mk.inj (Option.some.inj h)
    have hall := forall_items hvalue (by simpa using hvalue hx) hxs
    exact ⟨.array fun y hy => (hall y hy).1, .array fun y hy => (hall y hy).2⟩

theorem result_of_object (h : object? value size s = some (j, rest)) : Result (depth + 1) j := by
  unfold object? at h
  split at h
  · obtain ⟨rfl, -⟩ := Prod.mk.inj (Option.some.inj h)
    exact ⟨.object nofun, .object List.Pairwise.nil nofun⟩
  · obtain ⟨⟨m, tail⟩, hm, h⟩ := Option.bind_eq_some_iff.mp h
    obtain ⟨⟨ms, tail'⟩, hms, h⟩ := Option.bind_eq_some_iff.mp h
    obtain ⟨rfl, -⟩ := Prod.mk.inj (Option.some.inj h)
    have hall := forall_members hvalue (by simpa using of_member hvalue hm) hms
    exact ⟨.object fun y hy => (hall y (Ordered.mem_ofList hy)).1,
      .object (Ordered.ascending_ofList ms) fun y hy => (hall y (Ordered.mem_ofList hy)).2⟩

end Reader

theorem result_of_value {size depth : Nat} {s rest : List Char} {j : Json}
    (h : Reader.value? size depth s = some (j, rest)) : Result depth j := by
  induction depth using Nat.strongRecOn generalizing s j rest with
  | ind depth ih =>
  have hword {word : Json} {tail : List Char} {depth : Nat} (hword : Result depth word)
      (h : some (word, tail) = some (j, rest)) : Result depth j := by
    obtain ⟨rfl, -⟩ := Prod.mk.inj (Option.some.inj h)
    exact hword
  revert h
  fun_cases Reader.value? size depth s with
  | case1 => exact hword ⟨.null, .null⟩
  | case2 => exact hword ⟨.bool, .bool⟩
  | case3 => exact hword ⟨.bool, .bool⟩
  | case4 =>
    intro h
    obtain ⟨⟨text, tail⟩, -, h⟩ := Option.map_eq_some_iff.mp h
    exact hword ⟨.string, .string⟩ (congrArg some h)
  | case5 => exact Reader.result_of_array fun hx => ih _ (Nat.lt_succ_self _) hx
  | case6 => exact Reader.result_of_object fun hx => ih _ (Nat.lt_succ_self _) hx
  | case7 => exact fun h => Reader.result_of_number h _

/-- What is read of a text. -/
theorem result_of_parse {s : String} {j : Json} (h : parse? s = some j) : Result maxDepth j := by
  obtain ⟨⟨value, rest⟩, hvalue, h⟩ := Option.bind_eq_some_iff.mp h
  dsimp only at h
  split at h
  · obtain rfl := Option.some.inj h
    exact result_of_value hvalue
  · cases h

end Replay.Json
