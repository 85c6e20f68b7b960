import Replay.Proofs.Xml.Tree
set_option autoImplicit false

namespace Replay.Xml.Document

inductive Encloses (d : Document) (a : Nat) : Nat → Prop where
  | self : Encloses d a a
  | inner {id p : Nat} (hp : d.parent? id = some p) (h : Encloses d a p) : Encloses d a id

theorem encloses_iff {d : Document} {a id : Nat} :
    d.Encloses a id ↔ id = a ∨ ∃ p, d.parent? id = some p ∧ d.Encloses a p := by
  constructor
  · rintro (_ | ⟨hp, h⟩)
    · exact Or.inl rfl
    · exact Or.inr ⟨_, hp, h⟩
  · rintro (rfl | ⟨p, hp, h⟩)
    · exact .self
    · exact .inner hp h

theorem Encloses.trans {d : Document} {a b id : Nat} (hab : d.Encloses a b)
    (h : d.Encloses b id) : d.Encloses a id := by
  induction h with
  | self => exact hab
  | inner hp _ ih => exact .inner hp ih

def lineage (d : Document) (id : Nat) : List Nat :=
  match d.parent? id with
  | none => [id]
  | some p => (if p < id then d.lineage p else []) ++ [id]
termination_by id

theorem lineage_root {d : Document} {id : Nat} (hp : d.parent? id = none) :
    d.lineage id = [id] := by
  rw [lineage, hp]

theorem lineage_ne_nil (d : Document) {id : Nat} : d.lineage id ≠ [] := by
  rw [lineage]
  split <;> simp

def segment (d : Document) (id : Nat) : String :=
  match d.parent? id with
  | none => d.name id
  | some _ => s!"{d.name id}[{d.position id}]"

theorem segments_eq (d : Document) (id : Nat) : d.segments id = (d.lineage id).map d.segment := by
  induction id using Nat.strongRecOn with
  | ind id ih =>
    rw [segments, lineage]
    cases hp : d.parent? id with
    | none => simp [segment, hp]
    | some p =>
      by_cases hlt : p < id
      · simp [hlt, ih p hlt, segment, hp]
      · simp [hlt, segment, hp]

section Tree

variable {d : Document} (hd : d.IsTree)
include hd

theorem IsTree.induction {motive : Nat → Prop} (root : ∀ id, d.parent? id = none → motive id)
    (inner : ∀ id p, d.parent? id = some p → motive p → motive id) (id : Nat) : motive id := by
  induction id using Nat.strongRecOn with
  | ind id ih =>
    cases hp : d.parent? id with
    | none => exact root id hp
    | some p => exact inner id p hp (ih p (hd.parent_lt hp))

theorem Encloses.le {a id : Nat} (h : d.Encloses a id) : a ≤ id := by
  induction h with
  | self => exact Nat.le_refl _
  | inner hp _ ih => exact Nat.le_trans ih (Nat.le_of_lt (hd.parent_lt hp))

theorem lineage_inner {id p : Nat} (hp : d.parent? id = some p) :
    d.lineage id = d.lineage p ++ [id] := by
  rw [lineage, hp]
  simp only [if_pos (hd.parent_lt hp)]

theorem mem_lineage {a id : Nat} : a ∈ d.lineage id ↔ d.Encloses a id := by
  induction id using hd.induction with
  | root id hp =>
    rw [lineage_root hp, List.mem_singleton]
    constructor
    · rintro rfl
      exact .self
    · rintro (_ | ⟨hp', -⟩)
      · rfl
      · rw [hp] at hp'
        cases hp'
  | inner id p hp ih =>
    rw [lineage_inner hd hp, List.mem_append, ih, List.mem_singleton]
    constructor
    · rintro (h | rfl)
      · exact .inner hp h
      · exact .self
    · rintro (_ | ⟨hp', h⟩)
      · exact Or.inr rfl
      · rw [hp] at hp'
        obtain rfl := Option.some.inj hp'
        exact Or.inl h

theorem mem_children {id p : Nat} : id ∈ d.children p ↔ d.parent? id = some p := by
  rw [hd.children_eq, ids, List.mem_filter, List.mem_range, decide_eq_true_eq]
  exact and_iff_right_of_imp lt_size_of_parent?

theorem getElem?_position {id p : Nat} (hp : d.parent? id = some p) :
    ((d.children p).filter fun c => d.name c == d.name id)[d.position id - 1]? = some id := by
  have hmem : id ∈ (d.children p).filter fun c => d.name c == d.name id :=
    List.mem_filter.mpr ⟨(mem_children hd).mpr hp, beq_self_eq_true _⟩
  rw [position, hp]
  simp only [Nat.add_sub_cancel]
  rw [List.getElem?_eq_getElem (List.idxOf_lt_length_of_mem hmem), List.getElem_idxOf]

theorem position_le_size (id : Nat) : d.position id ≤ d.size ∨ d.parent? id = none := by
  cases hp : d.parent? id with
  | none => exact Or.inr rfl
  | some p =>
    have hlt := (List.getElem?_eq_some_iff.mp (getElem?_position hd hp)).1
    have hfilter := List.length_filter_le (fun c => d.name c == d.name id) (d.children p)
    have hchildren : (d.children p).length ≤ d.size := by
      rw [hd.children_eq]
      exact Nat.le_trans (List.length_filter_le ..) (Nat.le_of_eq (by simp [ids]))
    left
    omega

end Tree

theorem position_pos (d : Document) (id : Nat) : 0 < d.position id := by
  unfold position
  split <;> omega

end Replay.Xml.Document
