import Replay.Proofs.Xml.Lineage
import Replay.XPath.Eval
set_option autoImplicit false

namespace Replay

namespace Xml.Document

theorem getD_foldl_setIfInBounds (picked : List Nat) (marks : Array Bool) {i : Nat}
    (hi : i < marks.size) :
    (picked.foldl (fun m id => m.setIfInBounds id true) marks).getD i false =
      (marks.getD i false || decide (i ∈ picked)) := by
  induction picked generalizing marks with
  | nil => simp
  | cons id rest ih =>
    rw [List.foldl_cons, ih _ (by simpa using hi)]
    simp only [Array.getD_eq_getD_getElem?, Array.getElem?_setIfInBounds, List.mem_cons]
    by_cases heq : id = i
    · simp [heq, hi]
    · simp [heq, Ne.symm heq]

theorem inOrder_eq (d : Document) (picked : List Nat) :
    d.inOrder picked = d.ids.filter fun id => decide (id ∈ picked) := by
  rw [inOrder]
  refine List.filter_congr fun id hid => ?_
  have hlt : id < d.size := List.mem_range.mp hid
  rw [getD_foldl_setIfInBounds _ _ (by simpa using hlt)]
  simp [Array.getD_eq_getD_getElem?, hlt]

theorem inOrder_singleton (d : Document) {id : Nat} (h : id < d.size) : d.inOrder [id] = [id] := by
  have hbeq : (fun i : Nat => decide (i ∈ [id])) = fun i => i == id := by
    funext i
    simp [Bool.beq_eq_decide_eq]
  rw [inOrder_eq, hbeq, List.filter_beq, ids, List.count_range, if_pos h, List.replicate_one]

variable {d : Document}

section Tree

variable (hd : d.IsTree)
include hd

/-- The pass over the elements in document order: whether one is reached depends on its own mark and
on its parent, which comes before it. -/
theorem foldl_reached (marked : Nat → Bool) (n : Nat) :
    let reached := (List.range n).foldl (fun reached id =>
      reached.push (marked id || (d.parent? id).any fun p => reached.getD p false)) #[]
    reached.size = n ∧
      ∀ id < n, reached.getD id false = true ↔ ∃ a, marked a ∧ d.Encloses a id := by
  induction n with
  | zero => exact ⟨rfl, nofun⟩
  | succ n ih =>
    obtain ⟨hsize, hold⟩ := ih
    rw [List.range_succ, List.foldl_append, List.foldl_cons, List.foldl_nil]
    generalize (List.range n).foldl _ #[] = reached at hsize hold ⊢
    refine ⟨by simp [hsize], fun id hid => ?_⟩
    rw [Array.getD_eq_getD_getElem?, Array.getElem?_push, hsize]
    obtain hlt | rfl := Nat.lt_or_eq_of_le (Nat.le_of_lt_succ hid)
    · rw [if_neg (Nat.ne_of_lt hlt), ← Array.getD_eq_getD_getElem?, hold id hlt]
    · rw [if_pos rfl, Option.getD_some, Bool.or_eq_true, Option.any_eq_true]
      constructor
      · rintro (hself | ⟨p, hp, hr⟩)
        · exact ⟨id, hself, .self⟩
        · obtain ⟨a, ha, he⟩ := (hold p (hd.parent_lt hp)).mp hr
          exact ⟨a, ha, .inner hp he⟩
      · rintro ⟨a, ha, he⟩
        obtain rfl | ⟨p, hp, he⟩ := encloses_iff.mp he
        · exact Or.inl ha
        · exact Or.inr ⟨p, hp, (hold p (hd.parent_lt hp)).mpr ⟨a, ha, he⟩⟩

theorem reachMarks_iff (start : List Nat) {id : Nat} (hid : id < d.size) :
    (d.reachMarks start).getD id false = true ↔ ∃ a ∈ start, d.Encloses a id := by
  have hmarks (a : Nat) (ha : a < d.size) :
      (start.foldl (fun m id => m.setIfInBounds id true) (Array.replicate d.size false)).getD a false
        = decide (a ∈ start) := by
    rw [getD_foldl_setIfInBounds _ _ (by simpa using ha)]
    simp [Array.getD_eq_getD_getElem?, ha]
  rw [reachMarks, ids, (foldl_reached hd _ d.size).2 id hid]
  refine exists_congr fun a => and_congr_left fun he => ?_
  rw [hmarks a (Nat.lt_of_le_of_lt (he.le hd) hid), decide_eq_true_eq]

theorem mem_descendantsOrSelf {start : List Nat} {id : Nat} :
    id ∈ d.descendantsOrSelf start ↔ id < d.size ∧ ∃ a ∈ start, d.Encloses a id := by
  rw [descendantsOrSelf, List.mem_filter, ids, List.mem_range]
  exact and_congr_right fun hid => reachMarks_iff hd start hid

end Tree

end Xml.Document

namespace XPath

open Xml (Document)

def Step.to (d : Document) (id : Nat) : Step where
  axis := .child
  test := .name (d.name id)
  predicates :=
    match d.parent? id with
    | none => []
    | some _ => [.position (d.position id)]

section Tree

variable {d : Document} (hd : d.IsTree)
include hd

theorem select_to_root {id : Nat} (hid : id < d.size) (hp : d.parent? id = none) :
    (Step.to d id).select d ⟨true, []⟩ = [id] := by
  obtain rfl := hd.root id hid hp
  have hsiblings : (Step.to d 0).ofSiblings d [0] = [0] := by
    simp [Step.ofSiblings, Step.to, hp, NodeTest.accepts]
  have hselect : (Step.to d 0).select d ⟨true, []⟩ =
      d.inOrder ((Step.to d 0).ofSiblings d [0]) := by
    simp [Step.select, Step.to, Axis.origins]
  rw [hselect, hsiblings, d.inOrder_singleton hid]

theorem select_to_inner {id p : Nat} (hid : id < d.size) (hp : d.parent? id = some p) :
    (Step.to d id).select d ⟨false, [p]⟩ = [id] := by
  have hsiblings : (Step.to d id).ofSiblings d (d.children p) = [id] := by
    simp [Step.ofSiblings, Step.to, hp, NodeTest.accepts, Predicate.filter,
      Document.getElem?_position hd hp]
  have hselect : (Step.to d id).select d ⟨false, [p]⟩ =
      d.inOrder ((Step.to d id).ofSiblings d (d.children p)) := by
    simp [Step.select, Step.to, Axis.origins]
  rw [hselect, hsiblings, d.inOrder_singleton hid]

/-- The steps on the way to an element lead to it, and to nothing else. -/
theorem follow_lineage {id : Nat} (hid : id < d.size) (rest : List Step) :
    follow d ((d.lineage id).map (Step.to d) ++ rest) ⟨true, []⟩ = follow d rest ⟨false, [id]⟩ := by
  -- The lineage grows at its end, so the step to the element is the first of what is left to do.
  induction id using hd.induction generalizing rest with
  | root id hp =>
    rw [Document.lineage_root hp, List.map_singleton, List.singleton_append,
      ← select_to_root hd hid hp]
    rfl
  | inner id p hp ih =>
    have hlt : p < d.size := Nat.lt_trans (hd.parent_lt hp) hid
    rw [Document.lineage_inner hd hp, List.map_append, List.append_assoc, ih hlt,
      List.map_singleton, List.singleton_append, ← select_to_inner hd hid hp]
    rfl

theorem evaluate_lineage {id : Nat} (hid : id < d.size) (absolute : Bool) :
    Path.evaluate d ⟨absolute, (d.lineage id).map (Step.to d)⟩ = [.element id] := by
  have hfollow := follow_lineage hd hid []
  rw [List.append_nil] at hfollow
  exact hfollow

end Tree

end XPath

end Replay
