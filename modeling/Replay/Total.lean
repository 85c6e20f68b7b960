set_option autoImplicit false

namespace Replay

def total : List Nat → Nat
  | [] => 0
  | n :: ns => n + total ns

theorem total_map_add {α : Type} {f g h : α → Nat} {l : List α}
    (heq : ∀ a ∈ l, f a = g a + h a) : total (l.map f) = total (l.map g) + total (l.map h) := by
  induction l with
  | nil => rfl
  | cons a l ih =>
    obtain ⟨ha, hl⟩ := List.forall_mem_cons.mp heq
    simp only [List.map_cons, total, ha, ih hl]
    omega

theorem total_map_le {α : Type} {f g : α → Nat} {l : List α} (h : ∀ a ∈ l, f a ≤ g a) :
    total (l.map f) ≤ total (l.map g) := by
  induction l with
  | nil => exact Nat.le_refl _
  | cons a l ih =>
    obtain ⟨ha, hl⟩ := List.forall_mem_cons.mp h
    exact Nat.add_le_add ha (ih hl)

theorem total_map_le_mul {α : Type} {f : α → Nat} {n : Nat} {l : List α} (h : ∀ a ∈ l, f a ≤ n) :
    total (l.map f) ≤ n * l.length := by
  induction l with
  | nil => exact Nat.zero_le _
  | cons a l ih =>
    obtain ⟨ha, hl⟩ := List.forall_mem_cons.mp h
    have hrest := ih hl
    simp only [List.map_cons, total, List.length_cons, Nat.mul_succ]
    omega

theorem total_filter_add {α : Type} (p : α → Bool) (f : α → Nat) (l : List α) :
    total ((l.filter p).map f) + total ((l.filter (!p ·)).map f) = total (l.map f) := by
  induction l with
  | nil => rfl
  | cons a l ih =>
    cases hp : p a <;>
    · simp only [List.filter_cons, hp, Bool.not_true, Bool.not_false, Bool.false_eq_true, if_true,
        if_false, List.map_cons, total, ← ih]
      omega

theorem total_map_ite {α : Type} (p : α → Bool) (l : List α) :
    total (l.map fun a => if p a then 1 else 0) = l.countP p := by
  induction l with
  | nil => rfl
  | cons a l ih => rw [List.map_cons, total, ih, List.countP_cons, Nat.add_comm]

theorem length_flatMap {α β : Type} (f : α → List β) (l : List α) :
    (l.flatMap f).length = total (l.map fun a => (f a).length) := by
  induction l with
  | nil => rfl
  | cons a l ih => simp only [List.flatMap_cons, List.length_append, List.map_cons, total, ih]

end Replay
