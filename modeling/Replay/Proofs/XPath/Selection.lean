import Replay.Proofs.XPath.Meaning
import Replay.Proofs.XPath.Reading
set_option autoImplicit false

/-!
Evaluation yields what a path means, in document order and each hit once (`evaluate_selects`). A set
of nodes is kept as the elements in document order and a mark for the document (`NodeSet.Has`); every
step takes such a set to the set of the nodes that it leads to (`selects_eq_origins`,
`selects_eq_select`).
-/

namespace Replay.XPath

open Xml (Document)

def NodeSet.Has (s : NodeSet) : Node → Prop
  | .document => s.document
  | .element id => id ∈ s.elements

section Tree

variable {d : Document} (hd : d.IsTree)
include hd

theorem below_element_iff {a : Nat} {n : Node} :
    (Node.element a).Below d n ↔ ∃ id, n = .element id ∧ d.Encloses a id := by
  constructor
  · intro h
    induction h with
    | self => exact ⟨a, rfl, .self⟩
    | child h hid ih =>
      obtain ⟨p, rfl, he⟩ := ih
      exact ⟨_, rfl, .inner ((Document.mem_children hd).mp hid) he⟩
  · rintro ⟨id, rfl, he⟩
    induction he with
    | self => exact .self
    | inner hp he ih => exact .child ih ((Document.mem_children hd).mpr hp)

theorem below_document_iff (hsize : 0 < d.size) {n : Node} :
    Node.document.Below d n ↔ ∀ id, n = .element id → id < d.size := by
  constructor
  · intro h
    induction h with
    | self => nofun
    | child h hid ih =>
      rintro id ⟨⟩
      cases h with
      | self => exact (List.mem_singleton.mp hid).symm ▸ hsize
      | child => exact Document.lt_size_of_parent? ((Document.mem_children hd).mp hid)
  · intro h
    cases n with
    | document => exact .self
    | element id =>
      have hid := h id rfl
      clear h
      induction id using hd.induction with
      | root id hp =>
        obtain rfl := hd.root id hid hp
        exact .child .self (List.mem_singleton_self 0)
      | inner id p hp ih =>
        exact .child (ih (Nat.lt_trans (hd.parent_lt hp) hid)) ((Document.mem_children hd).mpr hp)

end Tree

def NodeSet.Sound (d : Document) (s : NodeSet) : Prop := s.elements.Sublist d.ids

theorem sound_origins {d : Document} (axis : Axis) {s : NodeSet} (hs : s.Sound d) :
    (axis.origins d s).Sound d := by
  cases axis with
  | child => exact hs
  | descendant =>
    cases hdoc : s.document with
    | true => simp [Axis.origins, NodeSet.Sound, hdoc]
    | false => simp [Axis.origins, NodeSet.Sound, hdoc, Document.descendantsOrSelf]

theorem sound_select (d : Document) (step : Step) (s : NodeSet) :
    NodeSet.Sound d ⟨false, step.select d s⟩ := by
  rw [NodeSet.Sound, Step.select, Document.inOrder_eq]
  exact List.filter_sublist

theorem NodeSet.Sound.lt_size {d : Document} {s : NodeSet} (hs : s.Sound d) {id : Nat}
    (hid : id ∈ s.elements) : id < d.size := List.mem_range.mp (hs.subset hid)

theorem mem_of_mem_survivors {d : Document} {nodes : List Nat} {p : Predicate} {id : Nat}
    (h : id ∈ p.survivors d nodes) : id ∈ nodes := by
  obtain ⟨e, he, hid⟩ := List.mem_filterMap.mp h
  split at hid
  · obtain rfl := Option.some.inj hid
    exact List.fst_mem_of_mem_zipIdx he
  · cases hid

theorem mem_children_of_chosen {d : Document} {step : Step} {parent : Node} {id : Nat}
    (h : id ∈ step.chosen d parent) : id ∈ parent.children d := by
  suffices hmem : id ∈ (parent.children d).filter fun id => step.test.accepts d id from
    (List.mem_filter.mp hmem).1
  rw [Step.chosen] at h
  generalize (parent.children d).filter (fun id => step.test.accepts d id) = nodes at h ⊢
  generalize step.predicates = predicates at h
  induction predicates generalizing nodes with
  | nil => exact h
  | cons p ps ih => exact mem_of_mem_survivors (ih _ h)

theorem ofSiblings_eq_chosen (d : Document) {step : Step} (hstep : step.Counted) (parent : Node) :
    step.ofSiblings d (parent.children d) = step.chosen d parent := by
  rw [Step.ofSiblings, Step.chosen]
  rw [Step.Counted] at hstep
  generalize (parent.children d).filter (fun id => step.test.accepts d id) = nodes
  generalize step.predicates = predicates at hstep ⊢
  induction predicates generalizing nodes with
  | nil => rfl
  | cons p ps ih =>
    rw [List.foldl_cons, List.foldl_cons,
      Predicate.filter_eq_survivors d nodes (hstep p List.mem_cons_self)]
    exact ih _ fun q hq => hstep q (List.mem_cons_of_mem p hq)

/-- The hits stand in document order, each owner once. -/
theorem owners_follow (d : Document) (steps : List Step) {s : NodeSet} (hs : s.Sound d) :
    ((follow d steps s).map Hit.owner).Sublist d.ids := by
  induction steps generalizing s with
  | nil =>
    rw [NodeSet.Sound] at hs
    simpa [follow, Function.comp_def, Hit.owner] using hs
  | cons step rest ih =>
    have horigins := sound_origins step.axis hs
    rw [follow]
    split
    · split
      · simpa [Function.comp_def, Hit.owner] using List.filter_sublist.trans horigins
      · simp
    · split
      · simpa [Function.comp_def, Hit.owner] using List.filter_sublist.trans horigins
      · simp
    · exact ih horigins
    · exact ih (sound_select d step s)
    · exact ih (sound_select d step s)

section Tree

variable {d : Document} (hd : d.IsTree) (hsize : 0 < d.size)
include hd hsize

omit hsize in
theorem mem_origins_descendant {s : NodeSet} {id : Nat} :
    id ∈ (Axis.descendant.origins d s).elements ↔
      id < d.size ∧ (s.document ∨ ∃ a ∈ s.elements, d.Encloses a id) := by
  cases hdoc : s.document with
  | true => simp [Axis.origins, hdoc, Document.ids]
  | false => simp [Axis.origins, hdoc, Document.mem_descendantsOrSelf hd]

theorem has_origins (axis : Axis) {s : NodeSet} (hs : s.Sound d) {n : Node} :
    (axis.origins d s).Has n ↔ ∃ c, s.Has c ∧ axis.Reaches d c n := by
  cases axis with
  | child => simp [Axis.origins, Axis.Reaches]
  | descendant =>
    cases n with
    | document =>
      constructor
      · exact fun h => ⟨.document, h, .self⟩
      · rintro ⟨c, hc, hbelow⟩
        cases hbelow
        exact hc
    | element id =>
      rw [NodeSet.Has, mem_origins_descendant hd]
      constructor
      · rintro ⟨hid, hdoc | ⟨a, ha, he⟩⟩
        · exact ⟨.document, hdoc, (below_document_iff hd hsize).mpr (by rintro _ ⟨⟩; exact hid)⟩
        · exact ⟨.element a, ha, (below_element_iff hd).mpr ⟨id, rfl, he⟩⟩
      · rintro ⟨_ | a, hc, hbelow⟩
        · exact ⟨(below_document_iff hd hsize).mp hbelow id rfl, Or.inl hc⟩
        · obtain ⟨_, ⟨⟩, he⟩ := (below_element_iff hd).mp hbelow
          refine ⟨?_, Or.inr ⟨a, hc, he⟩⟩
          obtain rfl | ⟨p, hp, -⟩ := Document.encloses_iff.mp he
          · exact hs.lt_size hc
          · exact Document.lt_size_of_parent? hp

theorem lt_size_of_chosen {step : Step} {parent : Node} {id : Nat}
    (hid : id ∈ step.chosen d parent) : id < d.size := by
  have hchild := mem_children_of_chosen hid
  cases parent with
  | document => exact (List.mem_singleton.mp hchild).symm ▸ hsize
  | element p => exact Document.lt_size_of_parent? ((Document.mem_children hd).mp hchild)

theorem mem_select {step : Step} (hstep : step.Counted) {s : NodeSet} (hs : s.Sound d) {id : Nat} :
    id ∈ step.select d s ↔
      ∃ c parent, s.Has c ∧ step.axis.Reaches d c parent ∧ id ∈ step.chosen d parent := by
  have horigin : id ∈ step.select d s ↔
      ∃ parent, (step.axis.origins d s).Has parent ∧ id ∈ step.chosen d parent := by
    rw [Step.select, Document.inOrder_eq, List.mem_filter, Document.ids, List.mem_range,
      decide_eq_true_eq, List.mem_append, List.mem_flatMap]
    have hdoc := ofSiblings_eq_chosen d hstep .document
    have hchildren (p : Nat) := ofSiblings_eq_chosen d hstep (.element p)
    rw [Node.children] at hdoc
    simp only [Node.children] at hchildren
    simp only [hdoc, hchildren]
    constructor
    · rintro ⟨-, h | ⟨p, hp, hid⟩⟩
      · split at h
        · next hdocument => exact ⟨.document, hdocument, h⟩
        · cases h
      · exact ⟨.element p, hp, hid⟩
    · rintro ⟨_ | p, hp, hid⟩
      · refine ⟨lt_size_of_chosen hd hsize hid, Or.inl ?_⟩
        have hdocument : (step.axis.origins d s).document = true := hp
        rw [if_pos hdocument]
        exact hid
      · exact ⟨lt_size_of_chosen hd hsize hid, Or.inr ⟨p, hp, hid⟩⟩
  simp only [horigin, has_origins hd hsize _ hs]
  constructor
  · rintro ⟨parent, ⟨c, hc, hr⟩, hid⟩
    exact ⟨c, parent, hc, hr, hid⟩
  · rintro ⟨c, parent, hc, hr, hid⟩
    exact ⟨parent, ⟨c, hc, hr⟩, hid⟩

theorem selects_eq_origins {step : Step} (htest : step.test = .self) {s : NodeSet}
    (hs : s.Sound d) : step.Selects d s.Has = (step.axis.origins d s).Has := by
  funext n
  simp only [Step.Selects, htest, has_origins hd hsize _ hs]

theorem selects_eq_select {step : Step} (htest : step.test = .any ∨ ∃ n, step.test = .name n)
    (hstep : step.Counted) {s : NodeSet} (hs : s.Sound d) :
    step.Selects d s.Has = NodeSet.Has ⟨false, step.select d s⟩ := by
  have hunfold (n : Node) : step.Selects d s.Has n ↔ ∃ c parent id, s.Has c ∧
      step.axis.Reaches d c parent ∧ id ∈ step.chosen d parent ∧ n = .element id := by
    obtain htest | ⟨_, htest⟩ := htest <;> simp only [Step.Selects, htest]
  funext n
  rw [eq_iff_iff, hunfold]
  cases n with
  | document => simp [NodeSet.Has]
  | element id =>
    rw [NodeSet.Has, mem_select hd hsize hstep hs]
    constructor
    · rintro ⟨c, parent, _, hc, hr, hid, ⟨⟩⟩
      exact ⟨c, parent, hc, hr, hid⟩
    · rintro ⟨c, parent, hc, hr, hid⟩
      exact ⟨c, parent, id, hc, hr, hid, rfl⟩

theorem mem_follow_owned {step : Step} {rest : List Step} {s : NodeSet} (hs : s.Sound d) {hit : Hit}
    (htest : step.test = .text ∨ ∃ name, step.test = .attr name) :
    hit ∈ follow d (step :: rest) s ↔ Selects d (step :: rest) s.Has hit := by
  have hnone : ¬ Selects d rest (step.Selects d s.Has) hit := by
    refine not_selects_of_empty fun n => ?_
    obtain htest | ⟨_, htest⟩ := htest <;> simp [Step.Selects, htest]
  have horigin : (∃ c id, s.Has c ∧ step.axis.Reaches d c (.element id) ∧
      step.test.Yields d id hit) ↔
        ∃ id ∈ (step.axis.origins d s).elements, step.test.Yields d id hit := by
    constructor
    · rintro ⟨c, id, hc, hreach, h⟩
      exact ⟨id, (has_origins hd hsize _ hs).mpr ⟨c, hc, hreach⟩, h⟩
    · rintro ⟨id, hid, h⟩
      obtain ⟨c, hc, hreach⟩ := (has_origins hd hsize _ hs (n := .element id)).mp hid
      exact ⟨c, id, hc, hreach, h⟩
  rw [selects_cons_iff, or_iff_left hnone, horigin, follow]
  obtain htest | ⟨name, htest⟩ := htest
  · have hyields (id : Nat) : NodeTest.text.Yields d id hit ↔ d.hasText id ∧ .text id = hit :=
      ⟨fun | .text h => ⟨h, rfl⟩, fun ⟨h, he⟩ => he ▸ .text h⟩
    cases rest <;> simp [htest, hyields, and_assoc]
  · have hyields (id : Nat) : (NodeTest.attr name).Yields d id hit ↔
        (d.attribute? id name).isSome ∧ .attr id name = hit :=
      ⟨fun | .attr h => ⟨h, rfl⟩, fun ⟨h, he⟩ => he ▸ .attr h⟩
    cases rest <;> simp [htest, hyields, and_assoc]

theorem mem_follow {steps : List Step} (hsteps : ∀ step ∈ steps, step.Counted) {s : NodeSet}
    (hs : s.Sound d) {hit : Hit} : hit ∈ follow d steps s ↔ Selects d steps s.Has hit := by
  induction steps generalizing s with
  | nil =>
    rw [follow, List.mem_map]
    constructor
    · rintro ⟨id, hid, rfl⟩
      exact .element hid
    · rintro (⟨hid⟩)
      exact ⟨_, hid, rfl⟩
  | cons step rest ih =>
    have hstep := hsteps step List.mem_cons_self
    have hrest {s' : NodeSet} (hs' : s'.Sound d) :=
      ih (fun st hst => hsteps st (List.mem_cons_of_mem step hst)) hs'
    have honly (htest : step.test ≠ .text ∧ ∀ name, step.test ≠ .attr name) :
        Selects d (step :: rest) s.Has hit ↔ Selects d rest (step.Selects d s.Has) hit := by
      rw [selects_cons_iff, or_iff_right]
      rintro ⟨-, c, id, -, -, h⟩
      generalize step.test = test at h htest
      cases h with
      | attr => exact htest.2 _ rfl
      | text => exact htest.1 rfl
    cases htest : step.test with
    | attr name => exact mem_follow_owned hd hsize hs (Or.inr ⟨name, htest⟩)
    | text => exact mem_follow_owned hd hsize hs (Or.inl htest)
    | self =>
      rw [honly (by simp [htest]), selects_eq_origins hd hsize htest hs,
        ← hrest (sound_origins step.axis hs)]
      simp only [follow, htest]
    | name name =>
      rw [honly (by simp [htest]), selects_eq_select hd hsize (Or.inr ⟨name, htest⟩) hstep hs,
        ← hrest (sound_select d step s)]
      simp only [follow, htest]
    | any =>
      rw [honly (by simp [htest]), selects_eq_select hd hsize (Or.inl htest) hstep hs,
        ← hrest (sound_select d step s)]
      simp only [follow, htest]

end Tree

/-- Evaluation yields what the path means, in document order and without repetition. This holds of
every expression that is read; predicates of a step `.`, `@a` or `text()` mean nothing. -/
theorem evaluate_selects {content : String} {d : Document} (hdoc : Document.parse? content = some d)
    {text : String} {path : Path} (hpath : parse text = .ok path) :
    (∀ hit, hit ∈ path.evaluate d ↔ Selects d path.steps (· = .document) hit) ∧
      ((path.evaluate d).map Hit.owner).Pairwise (· < ·) ∧
      ∀ hit ∈ path.evaluate d, hit.owner < d.size := by
  obtain ⟨hd, hsize, -⟩ := Document.isTree_of_parse hdoc
  have hstart : NodeSet.Sound d ⟨true, []⟩ := List.nil_sublist _
  have hcontext : NodeSet.Has ⟨true, []⟩ = (· = .document) := by
    funext n
    cases n <;> simp [NodeSet.Has]
  have howners := owners_follow d path.steps hstart
  refine ⟨fun hit => ?_, ?_, fun hit hhit => ?_⟩
  · rw [Path.evaluate, mem_follow hd hsize (Reader.counted_parse hpath) hstart, hcontext]
  · exact List.Pairwise.sublist howners List.pairwise_lt_range
  · exact List.mem_range.mp (howners.subset (List.mem_map_of_mem hhit))

/-- An element inside another of the same name, so that the steps `//` from both overlap. -/
def stairs : Document where
  elements :=
    #[{ name := "a", attributes := [], parent := none, children := #[1], depth := 0 },
      { name := "a", attributes := [], parent := some 0, children := #[2], depth := 1,
        hasText := true },
      { name := "b", attributes := [⟨"k", "v"⟩], parent := some 1, depth := 2 }]

theorem evaluate_selects_stairs :
    Document.parse? "<a><a>t<b k='v'/></a></a>" = some stairs ∧
      ∃ path, parse "//a//b[last()]/@k" = .ok path ∧ path.evaluate stairs = [.attr 2 "k"] ∧
        Selects stairs path.steps (· = .document) (.attr 2 "k") := by
  have hdoc : Document.parse? "<a><a>t<b k='v'/></a></a>" = some stairs := by decide +kernel
  have hpath : parse "//a//b[last()]/@k" = .ok ⟨true, [⟨.descendant, .name "a", []⟩,
      ⟨.descendant, .name "b", [.last]⟩, ⟨.child, .attr "k", []⟩]⟩ := by rfl
  refine ⟨hdoc, _, hpath, by decide +kernel, ?_⟩
  exact ((evaluate_selects hdoc hpath).1 _).mp (by decide +kernel)

end Replay.XPath
