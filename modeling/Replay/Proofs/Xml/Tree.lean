import Replay.Xml.Document
set_option autoImplicit false

/-!
A parsed document is a tree: a parent comes before its children, the root alone has none, and an
element lists exactly the elements whose parent it is, in document order (`Document.IsTree`). Every
construct that a builder accepts keeps it so (`Builder.sound_accept`).
-/

namespace Replay.Xml

namespace Document

structure IsTree (d : Document) : Prop where
  root : ∀ id < d.size, d.parent? id = none → id = 0
  parent_lt : ∀ {id p}, d.parent? id = some p → p < id
  children_eq : ∀ p, d.children p = d.ids.filter fun id => d.parent? id = some p

theorem element_eq (d : Document) (id : Nat) : d.element id = d.elements[id]?.getD default := by
  rw [element, Array.getD_eq_getD_getElem?]

theorem lt_size_of_parent? {d : Document} {id p : Nat} (h : d.parent? id = some p) :
    id < d.size := by
  refine Nat.lt_of_not_le fun hle => ?_
  rw [parent?, element_eq, Array.getElem?_eq_none hle] at h
  cases h

end Document

namespace Builder

def document (b : Builder) : Document := ⟨b.elements⟩

/-- The elements with a child more, the one to be added, in the innermost open one. -/
def linked (b : Builder) : Array Element :=
  b.unclosed.head?.elim b.elements fun p =>
    b.elements.modify p fun e => { e with children := e.children.push b.elements.size }

@[simp] theorem size_linked (b : Builder) : b.linked.size = b.elements.size := by
  unfold linked
  cases b.unclosed.head? <;> simp

theorem getElem?_linked (b : Builder) (i : Nat) : b.linked[i]? =
    b.elements[i]?.map fun e =>
      if b.unclosed.head? = some i then { e with children := e.children.push b.elements.size }
      else e := by
  unfold linked
  cases hopen : b.unclosed.head? with
  | none => simp
  | some p =>
    rw [Option.elim_some, Array.getElem?_modify]
    by_cases hp : p = i
    · simp [hp]
    · simp [hp]

theorem add_eq_ok {b b' : Builder} {after : Nat} {name attributes : List Char}
    (h : b.add after name attributes = .ok b') : ∃ e : Element,
      e.parent = b.unclosed.head? ∧ e.children = #[] ∧ e.name = String.ofList name ∧
      e.depth = b.unclosed.length ∧ e.hasText = false ∧
      Attribute.read? attributes = some e.attributes ∧
      (b.unclosed = [] → b.elements.size = 0) ∧ b' = { b with elements := b.linked.push e } := by
  unfold add at h
  split at h
  · cases h
  · next hroot =>
    split at h
    · cases h
    · next attrs hattrs =>
      obtain rfl := Except.ok.inj h
      refine ⟨_, rfl, rfl, rfl, rfl, rfl, hattrs, fun hopen => ?_, rfl⟩
      cases hempty : b.elements.isEmpty with
      | true => simpa using hempty
      | false => exact (hroot (by simp [hopen]) hempty).elim

theorem add_of_read {b : Builder} {attributes : List Char} {as : List Attribute}
    (hroot : b.unclosed = [] → b.elements.size = 0) (hread : Attribute.read? attributes = some as)
    (after : Nat) (name : List Char) : b.add after name attributes = .ok
      { b with
        elements := b.linked.push
          { name := String.ofList name, attributes := as, parent := b.unclosed.head?
            depth := b.unclosed.length } } := by
  unfold add
  split
  · next hopen hempty =>
    have hsize := hroot (List.head?_eq_none_iff.mp hopen)
    simp [Array.isEmpty, hsize] at hempty
  · rw [hread]
    rfl

section Grown

variable (b : Builder) (e : Element)

def grown : Document := ⟨b.linked.push e⟩

theorem size_grown : (b.grown e).size = b.document.size + 1 := by
  simp [grown, Document.size, document]

theorem element_grown (i : Nat) : (b.grown e).element i =
    if i = b.document.size then e
    else if b.unclosed.head? = some i ∧ i < b.document.size then
      { b.document.element i with children := (b.document.element i).children.push b.document.size }
    else b.document.element i := by
  rw [Document.element_eq, Document.element_eq, grown, document, Document.size,
    Array.getElem?_push, size_linked, getElem?_linked]
  split
  · rfl
  · obtain hlt | hge := Nat.lt_or_ge i b.elements.size
    · rw [Array.getElem?_eq_getElem hlt]
      by_cases hopen : b.unclosed.head? = some i <;> simp [hopen, hlt]
    · rw [Array.getElem?_eq_none hge]
      simp [Nat.not_lt.mpr hge]

theorem parent?_grown (i : Nat) : (b.grown e).parent? i =
    if i = b.document.size then e.parent else b.document.parent? i := by
  rw [Document.parent?, element_grown]
  split
  · rfl
  · split <;> rfl

theorem children_grown (i : Nat) : (b.grown e).children i =
    if i = b.document.size then e.children.toList
    else if b.unclosed.head? = some i ∧ i < b.document.size then
      b.document.children i ++ [b.document.size]
    else b.document.children i := by
  rw [Document.children, element_grown]
  split
  · rfl
  · split
    · simp [Document.children]
    · rfl

end Grown

structure Sound (b : Builder) : Prop where
  open_lt : ∀ id ∈ b.unclosed, id < b.document.size
  tree : b.document.IsTree

theorem sound_empty : Sound {} where
  open_lt := nofun
  tree :=
    { root := nofun
      parent_lt := fun h => (Nat.not_lt_zero _ (Document.lt_size_of_parent? h)).elim
      children_eq := fun _ => rfl }

theorem isTree_grown {b : Builder} (hb : b.Sound) {e : Element}
    (hparent : e.parent = b.unclosed.head?) (hchildren : e.children = #[])
    (hroot : b.unclosed = [] → b.document.size = 0) : (b.grown e).IsTree := by
  have hlt {p : Nat} (hp : b.unclosed.head? = some p) : p < b.document.size :=
    hb.open_lt p (List.mem_of_mem_head? hp)
  constructor
  · intro id hid hnone
    rw [size_grown] at hid
    rw [parent?_grown] at hnone
    split at hnone
    · next heq =>
      rw [heq, hroot (List.head?_eq_none_iff.mp (hparent ▸ hnone))]
    · exact hb.tree.root id (by omega) hnone
  · intro id p hp
    rw [parent?_grown] at hp
    split at hp
    · next heq => exact heq ▸ hlt (hparent ▸ hp)
    · exact hb.tree.parent_lt hp
  · intro p
    -- The children so far are those among the old elements; the new one is the last.
    have hold : (b.grown e).ids.filter (fun id => (b.grown e).parent? id = some p) =
        b.document.children p ++ if b.unclosed.head? = some p then [b.document.size] else [] := by
      rw [Document.ids, size_grown, List.range_succ, List.filter_append, hb.tree.children_eq]
      congr 1
      · refine List.filter_congr fun id hid => ?_
        rw [parent?_grown, if_neg (Nat.ne_of_lt (List.mem_range.mp hid))]
      · rw [List.filter_cons, parent?_grown, if_pos rfl, hparent]
        simp
    rw [hold, children_grown]
    split
    · next heq =>
      have hnone : b.document.children p = [] := by
        rw [hb.tree.children_eq, List.filter_eq_nil_iff]
        intro id hid hp
        have hpid := hb.tree.parent_lt (by simpa using hp)
        rw [Document.ids, List.mem_range] at hid
        omega
      have hhead : b.unclosed.head? ≠ some p := fun hp => by
        have := hlt hp
        omega
      simp [hnone, hhead, hchildren]
    · by_cases hp : b.unclosed.head? = some p
      · rw [if_pos ⟨hp, hlt hp⟩, if_pos hp]
      · rw [if_neg (fun h => hp h.1), if_neg hp, List.append_nil]

theorem sound_add {b b' : Builder} (hb : b.Sound) {after : Nat} {name attributes : List Char}
    (h : b.add after name attributes = .ok b') :
    b'.Sound ∧ b'.unclosed = b.unclosed ∧ b'.document.size = b.document.size + 1 := by
  obtain ⟨e, hparent, hchildren, -, -, -, -, hroot, rfl⟩ := add_eq_ok h
  refine ⟨⟨fun id hid => ?_, isTree_grown hb hparent hchildren hroot⟩, rfl, b.size_grown e⟩
  exact Nat.lt_of_lt_of_eq (Nat.lt_succ_of_lt (hb.open_lt id hid)) (b.size_grown e).symm

theorem sound_enterLast {b : Builder} (hb : b.Sound) (hpos : 0 < b.document.size) :
    b.enterLast.Sound where
  open_lt := by
    intro id hid
    obtain rfl | hid := List.mem_cons.mp hid
    · exact Nat.sub_one_lt (Nat.ne_of_gt hpos)
    · exact hb.open_lt id hid
  tree := hb.tree

theorem element_markText_eq (b : Builder) (id : Nat) : b.markText.document.element id =
    if b.unclosed.head? = some id ∧ id < b.document.size then
      { b.document.element id with hasText := true }
    else b.document.element id := by
  obtain ⟨elements, _ | ⟨innermost, outer⟩⟩ := b
  · simp [markText]
  · rw [Document.element_eq, Document.element_eq, markText, document, document,
      Array.getElem?_modify]
    obtain hlt | hge := Nat.lt_or_ge id elements.size
    · by_cases hopen : innermost = id <;> simp [hopen, hlt, Document.size]
    · simp [Document.size, Nat.not_lt.mpr hge]

theorem element_markText (b : Builder) (i : Nat) : ∃ hasText,
    b.markText.document.element i = { b.document.element i with hasText } := by
  rw [element_markText_eq]
  split
  · exact ⟨true, rfl⟩
  · exact ⟨_, rfl⟩

theorem sound_markText {b : Builder} (hb : b.Sound) : b.markText.Sound := by
  have hsize : b.markText.document.size = b.document.size := by
    obtain ⟨elements, _ | ⟨id, outer⟩⟩ := b <;> simp [markText, document, Document.size]
  have hparent (i : Nat) : b.markText.document.parent? i = b.document.parent? i := by
    obtain ⟨hasText, h⟩ := b.element_markText i
    rw [Document.parent?, h, Document.parent?]
  have hchildren (i : Nat) : b.markText.document.children i = b.document.children i := by
    obtain ⟨hasText, h⟩ := b.element_markText i
    rw [Document.children, h, Document.children]
  have hopen : b.markText.unclosed = b.unclosed := by
    obtain ⟨elements, _ | ⟨id, outer⟩⟩ := b <;> rfl
  refine ⟨fun id hid => ?_, fun id hid => ?_, fun h => ?_, fun p => ?_⟩
  · exact hsize ▸ hb.open_lt id (hopen ▸ hid)
  · exact hparent id ▸ hb.tree.root id (hsize ▸ hid)
  · exact hb.tree.parent_lt (hparent _ ▸ h)
  · simp only [hchildren, hb.tree.children_eq, Document.ids, hsize, hparent]

/-- Every construct that is accepted keeps the invariant, and adds one element at most. -/
theorem sound_accept {b b' : Builder} (hb : b.Sound) {p : Placed} (h : b.accept p = .ok b') :
    b'.Sound ∧ b'.document.size ≤ b.document.size + 1 := by
  -- Only the two kinds of tags that add an element touch the tree.
  unfold accept at h
  split at h
  · next name attributes _ =>
    cases hadd : b.add p.after name attributes with
    | error f => simp [hadd, Except.map] at h
    | ok b₁ =>
      obtain ⟨hsound, -, hsize⟩ := sound_add hb hadd
      obtain rfl : b₁.enterLast = b' := by simpa [hadd, Except.map] using h
      exact ⟨sound_enterLast hsound (by omega), Nat.le_of_eq hsize⟩
  · obtain ⟨hsound, -, hsize⟩ := sound_add hb h
    exact ⟨hsound, Nat.le_of_eq hsize⟩
  · split at h
    · next id outer hopen =>
      split at h
      · obtain rfl := Except.ok.inj h
        refine ⟨⟨fun i hi => hb.open_lt i ?_, hb.tree⟩, Nat.le_succ _⟩
        exact hopen ▸ List.mem_cons_of_mem id hi
      · cases h
    · cases h
  · obtain rfl := Except.ok.inj h
    refine ⟨sound_markText hb, ?_⟩
    obtain ⟨elements, _ | ⟨id, outer⟩⟩ := b <;> simp [markText, document, Document.size]

theorem sound_run {b b' : Builder} (hb : b.Sound) {markup : List Placed}
    (h : markup.foldlM accept b = .ok b') :
    b'.Sound ∧ b'.document.size ≤ b.document.size + markup.length := by
  induction markup generalizing b with
  | nil =>
    obtain rfl := Except.ok.inj h
    exact ⟨hb, Nat.le_refl _⟩
  | cons p rest ih =>
    rw [List.foldlM_cons] at h
    cases hp : b.accept p with
    | error f => simp [hp, bind, Except.bind] at h
    | ok b₁ =>
      obtain ⟨hsound, hsize⟩ := sound_accept hb hp
      obtain ⟨hrest, hle⟩ := ih hsound (by simpa [hp, bind, Except.bind] using h)
      refine ⟨hrest, ?_⟩
      rw [List.length_cons]
      omega

end Builder

namespace Scanner

theorem length_found_feed (s : Scanner) (c : Char) :
    (s.feed c).found.length ≤ s.found.length + 1 := by
  unfold feed
  split
  · unfold leaveContent
    split <;> simp
  · split
    · exact Nat.le_succ _
    · next markup _ =>
      cases markup <;> simp

theorem length_found_run (s : Scanner) (text : List Char) :
    (s.run text).found.length ≤ s.found.length + text.length := by
  induction text generalizing s with
  | nil => exact Nat.le_refl _
  | cons c rest ih =>
    have hrest : (s.run (c :: rest)).found.length ≤ (s.feed c).found.length + rest.length :=
      ih (s.feed c)
    have hfeed := s.length_found_feed c
    rw [List.length_cons]
    omega

end Scanner

theorem length_markup_scan (text : List Char) : (scan text).markup.length ≤ text.length := by
  have hrun := Scanner.length_found_run {} (withoutByteOrderMark text)
  have hmark : (withoutByteOrderMark text).length ≤ text.length := by
    unfold withoutByteOrderMark
    split
    · exact Nat.le_succ _
    · exact Nat.le_refl _
  rw [Scanner.markup, List.length_reverse]
  exact Nat.le_trans hrun (by simpa using hmark)

namespace Document

theorem parseChars_eq_ok {text : List Char} {d : Document} : parseChars text = .ok d ↔
    text.all Text.isBlank = false ∧ (scan text).atRest = true ∧
      ∃ b, (scan text).markup.foldlM Builder.accept {} = .ok b ∧ b.unclosed = [] ∧
        b.elements.size ≠ 0 ∧ d = b.document := by
  have hfinish (b : Builder) : b.finish = .ok d ↔
      b.unclosed = [] ∧ b.elements.size ≠ 0 ∧ d = b.document := by
    obtain ⟨elements, _ | ⟨id, outer⟩⟩ := b
    · by_cases hempty : elements.isEmpty
      · simp_all [Builder.finish]
      · rw [Builder.finish, if_neg hempty, Except.ok.injEq, eq_comm]
        simp_all [Builder.document]
    · simp [Builder.finish]
  unfold parseChars
  split
  · next hblank => simp [hblank, throw, throwThe, MonadExceptOf.throw, bind, Except.bind]
  · next hblank =>
    simp only [hblank, bind, Except.bind]
    cases (scan text).markup.foldlM Builder.accept {} with
    | error f => simp
    | ok b =>
      cases (scan text).atRest with
      | true => simp [hfinish]
      | false => simp [throw, throwThe, MonadExceptOf.throw]

theorem parse?_eq_some {content : String} {d : Document} :
    parse? content = some d ↔ parseChars content.toList = .ok d := by
  unfold parse? parse
  cases parseChars content.toList <;> simp [Except.toOption]

theorem isTree_of_parse {content : String} {d : Document} (h : parse? content = some d) :
    d.IsTree ∧ 0 < d.size ∧ d.size ≤ content.length := by
  obtain ⟨-, -, b, hrun, -, hne, rfl⟩ := parseChars_eq_ok.mp (parse?_eq_some.mp h)
  obtain ⟨hsound, hsize⟩ := Builder.sound_run Builder.sound_empty hrun
  refine ⟨hsound.tree, Nat.pos_of_ne_zero hne, Nat.le_trans hsize ?_⟩
  have hlength := length_markup_scan content.toList
  rw [String.length_toList] at hlength
  exact Nat.le_trans (Nat.le_of_eq (Nat.zero_add _)) hlength

end Document

end Replay.Xml
