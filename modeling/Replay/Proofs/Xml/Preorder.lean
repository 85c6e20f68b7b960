import Mathlib.Data.Nat.Find
import Replay.Proofs.Xml.Lineage
import Replay.Proofs.Xml.Nesting
set_option autoImplicit false

/-!
The elements of a document are numbered as their tags stand in the text, and the elements inside one
follow it directly (`Document.Preorder`). A builder has those elements open that the constructs so far
leave open (`Builder.opens_run`), so that all that is known of an element can be read off the
constructs before its tag (`Builder.records_of_split`).
-/

namespace Replay.Xml

namespace Document

/-- An element is the one that a tag starts inside the given open elements, the innermost first. -/
structure Records (d : Document) (id : Nat) (stack : List Nat) (m : Markup) : Prop where
  parent : d.parent? id = stack.head?
  depth : (d.element id).depth = stack.length
  tag : ∀ name attributes, m.start? = some (name, attributes) →
    d.name id = String.ofList name ∧ Attribute.read? attributes = some (d.element id).attributes

theorem Records.within {d larger : Document} (hd : d.Within larger) {id : Nat} (hid : id < d.size)
    {stack : List Nat} {m : Markup} (h : d.Records id stack m) : larger.Records id stack m := by
  have hstart := hd.start_eq id hid
  have hparent := congrArg Element.parent hstart
  have hdepth := congrArg Element.depth hstart
  refine ⟨Eq.trans hparent h.parent, Eq.trans hdepth h.depth, fun name attributes hm => ?_⟩
  rw [hd.name_eq hid, hd.attributes_eq hid]
  exact h.tag name attributes hm

end Document

namespace Builder

/-- A builder keeps the elements that the constructs so far leave open. -/
theorem opens_take {b b' : Builder} {markup : List Markup} (hopens : Opens b.unclosed markup)
    (hsize : b.document.size = markup.countP (·.isStart)) {m : Markup} (h : b.take m = some b') :
    Opens b'.unclosed (markup ++ [m]) := by
  cases takes_of_take h with
  | @opening name attributes b₁ hadd =>
    obtain ⟨-, hsize', hopen, -⟩ := add_spec hadd
    have hnew : b₁.elements.size - 1 = b.document.size := Nat.sub_eq_of_eq_add hsize'
    rw [enterLast, hopen, hnew, hsize]
    exact ⟨markup, ⟨_, [], rfl, rfl, balanced_nil⟩, rfl, hopens⟩
  | void hadd =>
    obtain ⟨-, -, hopen, -⟩ := add_spec hadd
    rw [hopen]
    exact hopens.append (balanced_singleton rfl rfl)
  | closing hopen =>
    rw [hopen] at hopens
    exact hopens.closing rfl
  | characters =>
    rw [unclosed_markText]
    exact hopens.append (balanced_singleton rfl rfl)

theorem opens_run {b : Builder} {markup : List Markup} (h : markup.foldlM take {} = some b) :
    Opens b.unclosed markup := by
  have hrun (done : List Markup) (b₀ : Builder) (hopens : Opens b₀.unclosed done)
      (hsize : b₀.document.size = done.countP (·.isStart)) (rest : List Markup)
      (h : rest.foldlM take b₀ = some b) : Opens b.unclosed (done ++ rest) := by
    induction rest generalizing done b₀ with
    | nil =>
      obtain rfl := Option.some.inj h
      rwa [List.append_nil]
    | cons m rest ih =>
      rw [List.foldlM_cons] at h
      obtain ⟨b₁, hm, hrest⟩ := Option.bind_eq_some_iff.mp h
      have hsize₁ : b₁.document.size = (done ++ [m]).countP (·.isStart) := by
        rw [(within_take hm).2, hsize, List.countP_append, List.countP_singleton]
      have := ih (done ++ [m]) b₁ (opens_take hopens hsize hm) hsize₁ hrest
      rwa [List.append_assoc] at this
  exact hrun [] {} balanced_nil rfl markup h

theorem records_take {b b' : Builder} {m : Markup} (hm : m.isStart) (h : b.take m = some b') :
    b'.document.Records b.document.size b.unclosed m := by
  have hadd {b₁ : Builder} {name attributes : List Char}
      (hname : m.start? = some (name, attributes)) (h : b.add 0 name attributes = .ok b₁) :
      b₁.document.Records b.document.size b.unclosed m := by
    obtain ⟨e, hparent, -, hname', hdepth, -, hattributes, -, rfl⟩ := add_eq_ok h
    have hnew : (b.grown e).element b.document.size = e := by rw [element_grown, if_pos rfl]
    refine ⟨hparent ▸ congrArg Element.parent hnew, hdepth ▸ congrArg Element.depth hnew, ?_⟩
    rintro name' attributes' hstart
    obtain ⟨rfl, rfl⟩ := Prod.mk.inj (Option.some.inj (hname.symm.trans hstart))
    exact ⟨hname' ▸ congrArg Element.name hnew,
      hattributes.trans (congrArg (some ·.attributes) hnew.symm)⟩
  cases takes_of_take h with
  | opening h₁ =>
    have hadded := hadd rfl h₁
    exact hadded
  | void h₁ => exact hadd rfl h₁
  | closing => cases hm
  | characters => cases hm

/-- The element that a tag starts, in the finished document. The constructs before the tag tell its
number and the elements around it. -/
theorem records_of_split {b : Builder} {markup before after : List Markup} {m : Markup}
    (h : markup.foldlM take {} = some b) (hsplit : markup = before ++ m :: after)
    (hm : m.isStart) : ∃ stack, Opens stack before ∧
      b.document.Records (before.countP (·.isStart)) stack m := by
  rw [hsplit, List.foldlM_append] at h
  obtain ⟨b₀, hbefore, h⟩ := Option.bind_eq_some_iff.mp h
  rw [List.foldlM_cons] at h
  obtain ⟨b₁, htake, hafter⟩ := Option.bind_eq_some_iff.mp h
  have hsize : b₀.document.size = before.countP (·.isStart) :=
    (within_run hbefore).2.trans (Nat.zero_add _)
  have hlt : b₀.document.size < b₁.document.size := by
    rw [(within_take htake).2, if_pos hm]
    exact Nat.lt_succ_self _
  exact ⟨b₀.unclosed, opens_run hbefore,
    hsize ▸ (records_take hm htake).within (within_run hafter).1 hlt⟩

theorem unclosed_suffix {b b' : Builder} {markup : List Markup}
    (hnone : markup.countP (·.isStart) = 0) (h : markup.foldlM take b = some b') :
    b'.unclosed <:+ b.unclosed := by
  induction markup generalizing b with
  | nil =>
    obtain rfl := Option.some.inj h
    exact List.suffix_rfl
  | cons m rest ih =>
    rw [List.foldlM_cons] at h
    obtain ⟨b₁, hm, hrest⟩ := Option.bind_eq_some_iff.mp h
    rw [List.countP_cons] at hnone
    refine (ih (by omega) hrest).trans ?_
    cases takes_of_take hm with
    | opening => simp [Markup.isStart] at hnone
    | void => simp [Markup.isStart] at hnone
    | closing hopen =>
      rw [hopen]
      exact List.suffix_cons _ _
    | characters =>
      have hsame := unclosed_markText b
      exact hsame ▸ List.suffix_rfl

theorem unclosed_take_start {b b' : Builder} {m : Markup} (hm : m.isStart)
    (h : b.take m = some b') :
    b'.unclosed = b.unclosed ∨ b'.unclosed = b.document.size :: b.unclosed := by
  cases takes_of_take h with
  | @opening name attributes b₁ hadd =>
    obtain ⟨-, hsize, hopen, -⟩ := add_spec hadd
    have hnew : b₁.elements.size - 1 = b.document.size := Nat.sub_eq_of_eq_add hsize
    right
    rw [enterLast, hopen, hnew]
  | void hadd =>
    obtain ⟨-, -, hopen, -⟩ := add_spec hadd
    exact Or.inl hopen
  | closing => cases hm
  | characters => cases hm

end Builder

theorem exists_split {markup : List Markup} {id : Nat} (h : id < markup.countP (·.isStart)) :
    ∃ before m after, markup = before ++ m :: after ∧ m.isStart ∧ before.countP (·.isStart) = id := by
  induction markup generalizing id with
  | nil => cases h
  | cons m rest ih =>
    rw [List.countP_cons] at h
    by_cases hm : m.isStart
    · cases id with
      | zero => exact ⟨[], m, rest, rfl, hm, rfl⟩
      | succ id =>
        have hrest : id < rest.countP (·.isStart) := by
          rw [if_pos hm] at h
          omega
        obtain ⟨before, m', after, rfl, hm', hcount⟩ := ih hrest
        exact ⟨m :: before, m', after, rfl, hm', by simp [hm, hcount]⟩
    · rw [if_neg hm, Nat.add_zero] at h
      obtain ⟨before, m', after, rfl, hm', hcount⟩ := ih h
      exact ⟨m :: before, m', after, rfl, hm', by simp [hm, hcount]⟩

namespace Builder

section Finished

variable {b : Builder} {markup : List Markup} (h : markup.foldlM take {} = some b)
include h

theorem size_run : b.document.size = markup.countP (·.isStart) :=
  (within_run h).2.trans (Nat.zero_add _)

theorem records_of_lt {id : Nat} (hid : id < b.document.size) : ∃ before m after stack,
    markup = before ++ m :: after ∧ m.isStart ∧ before.countP (·.isStart) = id ∧
      Opens stack before ∧ b.document.Records id stack m := by
  obtain ⟨before, m, after, hsplit, hm, rfl⟩ := exists_split (size_run h ▸ hid)
  obtain ⟨stack, hopens, hrecords⟩ := records_of_split h hsplit hm
  exact ⟨before, m, after, stack, hsplit, hm, rfl, hopens, hrecords⟩

theorem depth_of_parent {id p : Nat} (hp : b.document.parent? id = some p) :
    (b.document.element id).depth = (b.document.element p).depth + 1 := by
  obtain ⟨before, m, after, stack, hsplit, -, -, hopens, hrecords⟩ :=
    records_of_lt h (Document.lt_size_of_parent? hp)
  obtain ⟨outer, rfl⟩ := List.head?_eq_some_iff.1 (hrecords.parent.symm.trans hp)
  obtain ⟨before', ⟨tag, between, rfl, htag, -⟩, rfl, houter⟩ := hopens
  -- What was open at the tag of the parent is what is open around it now.
  rw [List.append_assoc, List.cons_append] at hsplit
  obtain ⟨stack, hopens', hrecords'⟩ :=
    records_of_split h hsplit (Markup.isStart_of_isOpening htag)
  obtain rfl := hopens'.unique houter
  rw [hrecords.depth, hrecords'.depth, List.length_cons]

theorem encloses_of_open {before after : List Markup} {m : Markup}
    (hsplit : markup = before ++ m :: after) (hm : m.isStart) {stack : List Nat}
    (hopens : Opens stack before) {q : Nat} (hq : q ∈ stack) :
    b.document.Encloses q (before.countP (·.isStart)) := by
  induction stack generalizing before m after with
  | nil => cases hq
  | cons p outer ih =>
    obtain ⟨stack, hopens', hrecords⟩ := records_of_split h hsplit hm
    obtain rfl := hopens'.unique hopens
    obtain ⟨before', ⟨tag, between, rfl, htag, -⟩, rfl, houter⟩ := hopens
    refine .inner hrecords.parent ?_
    obtain rfl | hq := List.mem_cons.1 hq
    · exact .self
    · rw [List.append_assoc, List.cons_append] at hsplit
      exact ih hsplit (Markup.isStart_of_isOpening htag) houter hq

theorem encloses_previous {id p : Nat} (hp : b.document.parent? (id + 1) = some p) :
    b.document.Encloses p id := by
  have hid := Document.lt_size_of_parent? hp
  obtain ⟨before, m, after, -, hsplit, hm, rfl, -⟩ := records_of_lt h (Nat.lt_of_succ_lt hid)
  have hlater : 0 < after.countP (·.isStart) := by
    rw [size_run h, hsplit, List.countP_append, List.countP_cons, if_pos hm] at hid
    omega
  obtain ⟨mid, next, rest, rfl, hnext, hmid⟩ := exists_split hlater
  -- Between the two tags elements are only closed.
  have hsplit' : markup = (before ++ m :: mid) ++ next :: rest := by simp [hsplit]
  have hcount : (before ++ m :: mid).countP (·.isStart) = before.countP (·.isStart) + 1 := by
    simp [hm, hmid]
  obtain ⟨b₂, hrun, -⟩ := Option.bind_eq_some_iff.1 (List.foldlM_append.symm.trans (hsplit' ▸ h))
  obtain ⟨stack, hopens, hrecords⟩ := records_of_split h hsplit' hnext
  obtain rfl := hopens.unique (opens_run hrun)
  rw [List.foldlM_append] at hrun
  obtain ⟨b₀, hbefore, hrun⟩ := Option.bind_eq_some_iff.1 hrun
  rw [List.foldlM_cons] at hrun
  obtain ⟨b₁, htake, hmidrun⟩ := Option.bind_eq_some_iff.1 hrun
  have hmem : p ∈ b₁.unclosed := by
    rw [hcount] at hrecords
    exact (unclosed_suffix hmid hmidrun).subset
      (List.mem_of_mem_head? (hrecords.parent.symm.trans hp))
  obtain hsame | hentered := unclosed_take_start hm htake
  · exact encloses_of_open h hsplit hm (opens_run hbefore) (hsame ▸ hmem)
  · rw [hentered, List.mem_cons, size_run hbefore] at hmem
    obtain rfl | hmem := hmem
    · exact .self
    · exact encloses_of_open h hsplit hm (opens_run hbefore) hmem

end Finished

end Builder

namespace Document

theorem encloses_between {d : Document}
    (hprevious : ∀ id p, d.parent? (id + 1) = some p → d.Encloses p id) {a m id : Nat}
    (h : d.Encloses a id) (ham : a ≤ m) (hm : m ≤ id) : d.Encloses a m := by
  induction id with
  | zero =>
    obtain rfl := Nat.le_zero.1 hm
    exact h
  | succ id ih =>
    obtain heq | hlt := Nat.eq_or_lt_of_le hm
    · exact heq ▸ h
    · obtain rfl | ⟨p, hp, hap⟩ := encloses_iff.1 h
      · omega
      · exact ih (hap.trans (hprevious id p hp)) (Nat.le_of_lt_succ hlt)

/-- The elements inside one follow it directly. -/
theorem exists_end {d : Document} (hd : d.IsTree)
    (hprevious : ∀ id p, d.parent? (id + 1) = some p → d.Encloses p id) {p : Nat}
    (hp : p < d.size) :
    ∃ next, p < next ∧ next ≤ d.size ∧ ∀ id, d.Encloses p id ↔ p ≤ id ∧ id < next := by
  classical
  have hstop : ∃ n, p < n ∧ ¬ (n < d.size ∧ d.Encloses p n) := ⟨d.size, hp, by simp⟩
  obtain ⟨hlt, hnext⟩ := Nat.find_spec hstop
  refine ⟨Nat.find hstop, hlt, Nat.find_min' hstop ⟨hp, by simp⟩, fun id => ⟨fun hid => ?_, ?_⟩⟩
  · refine ⟨hid.le hd, Nat.lt_of_not_le fun hle => hnext ?_⟩
    have hsize : id < d.size := by
      obtain rfl | ⟨q, hq, -⟩ := encloses_iff.1 hid
      · exact hp
      · exact lt_size_of_parent? hq
    exact ⟨Nat.lt_of_le_of_lt hle hsize,
      encloses_between hprevious hid (Nat.le_of_lt hlt) hle⟩
  · rintro ⟨hle, hid⟩
    obtain rfl | hgt := Nat.eq_or_lt_of_le hle
    · exact .self
    · by_contra hnot
      exact Nat.find_min hstop hid ⟨hgt, fun h => hnot h.2⟩

/-- The elements are those of the start and empty-element tags, numbered in their order, and make up
a tree in which an element comes before all that are inside. -/
structure Preorder (d : Document) (markup : List Markup) : Prop where
  size_pos : 0 < d.size
  size_eq : d.size = markup.countP (·.isStart)
  tag : ∀ before m after, markup = before ++ m :: after → ∀ name attributes,
    m.start? = some (name, attributes) →
      d.name (before.countP (·.isStart)) = String.ofList name ∧
        Attribute.read? attributes = some (d.element (before.countP (·.isStart))).attributes
  parent_iff : ∀ before m after, markup = before ++ m :: after → m.isStart →
    ∀ p, d.parent? (before.countP (·.isStart)) = some p ↔ InnermostOpen before p
  root : ∀ id < d.size, d.parent? id = none ↔ id = 0
  depth_root : (d.element 0).depth = 0
  parent : ∀ id p, d.parent? id = some p →
    p < id ∧ (d.element id).depth = (d.element p).depth + 1
  mem_children : ∀ p id, id ∈ d.children p ↔ d.parent? id = some p
  children_ascending : ∀ p, (d.children p).Pairwise (· < ·)
  block : ∀ p < d.size, ∃ next, p < next ∧ next ≤ d.size ∧
    ∀ id, d.Encloses p id ↔ p ≤ id ∧ id < next

theorem preorder_of_run {b : Builder} {markup : List Markup}
    (h : markup.foldlM Builder.take {} = some b) (hpos : 0 < b.document.size) :
    b.document.Preorder markup := by
  have htree : b.document.IsTree := (Builder.sound_takeAll Builder.sound_empty h).tree
  have hroot : b.document.parent? 0 = none := by
    cases hp : b.document.parent? 0 with
    | none => rfl
    | some p => exact absurd (htree.parent_lt hp) (Nat.not_lt_zero p)
  constructor
  case size_pos => exact hpos
  case size_eq => exact Builder.size_run h
  case tag =>
    intro before m after hsplit name attributes hm
    obtain ⟨stack, -, hrecords⟩ :=
      Builder.records_of_split h hsplit (Markup.isStart_of_start? hm)
    exact hrecords.tag name attributes hm
  case parent_iff =>
    intro before m after hsplit hm p
    obtain ⟨stack, hopens, hrecords⟩ := Builder.records_of_split h hsplit hm
    rw [hrecords.parent, hopens.head?_eq_some]
  case root =>
    exact fun id hid => ⟨htree.root id hid, fun heq => heq ▸ hroot⟩
  case depth_root =>
    obtain ⟨_, _, _, stack, -, -, -, -, hrecords⟩ := Builder.records_of_lt h hpos
    obtain rfl : stack = [] := List.head?_eq_none_iff.1 (hrecords.parent.symm.trans hroot)
    exact hrecords.depth
  case parent => exact fun id p hp => ⟨htree.parent_lt hp, Builder.depth_of_parent h hp⟩
  case mem_children => exact fun p id => mem_children htree
  case children_ascending =>
    intro p
    rw [htree.children_eq]
    exact List.pairwise_lt_range.filter _
  case block =>
    exact fun p hp => exists_end htree (fun id p hp => Builder.encloses_previous h hp) hp

end Document

namespace Scanner

structure InOrder (s : Scanner) : Prop where
  mark_le : s.mark ≤ s.position
  mark_lt : s.mode = .content true → s.mark < s.position
  after_lt : ∀ p ∈ s.found, p.after < s.mark
  descending : s.found.Pairwise fun later earlier => earlier.after < later.after

theorem InOrder.found {s : Scanner} (h : s.InOrder) (markup : Markup) :
    (⟨s.mark, markup⟩ :: s.found).Pairwise fun later earlier : Placed => earlier.after < later.after :=
  List.pairwise_cons.2 ⟨h.after_lt, h.descending⟩

theorem inOrder_feed {s : Scanner} (h : s.InOrder) (c : Char) : (s.feed c).InOrder := by
  have hsize : 0 < c.utf8Size := Char.utf8Size_pos c
  have hle := h.mark_le
  unfold feed
  split
  · next seen hmode _ =>
    cases seen with
    | false => exact ⟨by simp [leaveContent]; omega, nofun, h.after_lt, h.descending⟩
    | true =>
      have hlt := h.mark_lt hmode
      refine ⟨by simp [leaveContent], nofun, fun p hp => ?_, h.found _⟩
      obtain rfl | hp := List.mem_cons.1 hp
      · exact hlt
      · exact Nat.lt_trans (h.after_lt p hp) hlt
  · split
    · exact ⟨by simp only; omega, fun _ => by simp only; omega, h.after_lt, h.descending⟩
    · next markup _ =>
      have hafter (p : Placed) (hp : p ∈ s.found) : p.after < s.position + c.utf8Size := by
        have := h.after_lt p hp
        omega
      cases markup with
      | none => exact ⟨Nat.le_refl _, nofun, hafter, h.descending⟩
      | some markup =>
        refine ⟨Nat.le_refl _, nofun, fun p hp => ?_, h.found _⟩
        obtain rfl | hp := List.mem_cons.1 hp
        · simp only
          omega
        · exact hafter p hp

theorem inOrder_run {s : Scanner} (h : s.InOrder) (text : List Char) : (s.run text).InOrder := by
  induction text generalizing s with
  | nil => exact h
  | cons c rest ih => exact ih (inOrder_feed h c)

end Scanner

theorem after_ascending_scan (text : List Char) :
    (scan text).markup.Pairwise fun earlier later => earlier.after < later.after := by
  have hempty : Scanner.InOrder {} := ⟨Nat.le_refl _, nofun, nofun, .nil⟩
  rw [Scanner.markup, List.pairwise_reverse]
  exact (Scanner.inOrder_run hempty _).descending

/-- A parsed document is a tree in preorder. The constructs of its text tell of every element where it
stands in this order, and what is open there. -/
theorem Document.parse?_preorder {content : String} {d : Document}
    (h : Document.parse? content = some d) :
    ((scan content.toList).markup.Pairwise fun earlier later => earlier.after < later.after) ∧
      d.Preorder ((scan content.toList).markup.map Placed.markup) := by
  obtain ⟨-, -, b, hrun, -, hne, rfl⟩ := Document.parseChars_eq_ok.mp (Document.parse?_eq_some.mp h)
  exact ⟨after_ascending_scan _, Document.preorder_of_run (Document.run_eq_ok.mp hrun)
    (Nat.pos_of_ne_zero hne)⟩

def siblingsText : String := "<a><b x='1'>t</b><!-- <x> --><c/></a>"

theorem markup_siblingsText : (scan siblingsText.toList).markup.map Placed.markup =
    [.opening ['a'] [], .opening ['b'] " x='1'".toList, .characters, .closing ['b'], .void ['c'] [],
      .closing ['a']] := by decide +kernel

theorem parse?_preorder_siblings : ∃ d, Document.parse? siblingsText = some d ∧ d.size = 3 ∧
    d.parent? 2 = some 0 := by
  have hread : (Document.parse? siblingsText).isSome := by decide +kernel
  obtain ⟨d, hd⟩ := Option.isSome_iff_exists.mp hread
  obtain ⟨-, hpreorder⟩ := Document.parse?_preorder hd
  rw [markup_siblingsText] at hpreorder
  have hfirst : Balanced [.opening ['b'] " x='1'".toList, .characters, .closing ['b']] :=
    (balanced_singleton rfl rfl : Balanced [.characters]).enclosed rfl rfl
  have hopen : InnermostOpen [.opening ['a'] [], .opening ['b'] " x='1'".toList, .characters,
      .closing ['b']] 0 := ⟨[], ⟨_, _, rfl, rfl, hfirst⟩, rfl⟩
  have hparent := hpreorder.parent_iff [.opening ['a'] [], .opening ['b'] " x='1'".toList,
    .characters, .closing ['b']] (.void ['c'] []) [.closing ['a']] rfl rfl 0
  exact ⟨d, hd, hpreorder.size_eq, hparent.mpr hopen⟩

end Replay.Xml
