import Replay.Proofs.Xml.Scanning
import Replay.Proofs.Xml.Tree
import Replay.Xml.Repair
set_option autoImplicit false

/-!
Building a document from markup alone. What a builder makes of a construct does not depend on where
it stands (`Builder.take`), so that a text is a document exactly if its markup is taken to the end
(`Document.parse?_iff`). Elements that are there keep what their start tags say of them
(`Document.Within`), and the names of the open ones are those that repair keeps track of
(`Builder.track_take`).
-/

namespace Replay.Xml

/-- What the start tag of an element says of it: all but its children and its character data. -/
def Element.start (e : Element) : Element := { e with children := #[], hasText := false }

def Markup.isStart : Markup → Bool
  | .opening .. | .void .. => true
  | .closing _ | .characters => false

structure Document.Within (d larger : Document) : Prop where
  size_le : d.size ≤ larger.size
  start_eq : ∀ id < d.size, (larger.element id).start = (d.element id).start

theorem Document.Within.refl (d : Document) : d.Within d := ⟨Nat.le_refl _, fun _ _ => rfl⟩

theorem Document.Within.trans {d e f : Document} (hde : d.Within e) (hef : e.Within f) :
    d.Within f :=
  ⟨Nat.le_trans hde.size_le hef.size_le, fun id hid =>
    (hef.start_eq id (Nat.lt_of_lt_of_le hid hde.size_le)).trans (hde.start_eq id hid)⟩

theorem Document.Within.name_eq {d larger : Document} (h : d.Within larger) {id : Nat}
    (hid : id < d.size) : larger.name id = d.name id := by
  have hname := congrArg Element.name (h.start_eq id hid)
  exact hname

theorem Document.Within.attributes_eq {d larger : Document} (h : d.Within larger) {id : Nat}
    (hid : id < d.size) : (larger.element id).attributes = (d.element id).attributes := by
  have hattributes := congrArg Element.attributes (h.start_eq id hid)
  exact hattributes

namespace Builder

def take (b : Builder) (m : Markup) : Option Builder := (b.accept ⟨0, m⟩).toOption

theorem toOption_add (b : Builder) (after : Nat) (name attributes : List Char) :
    (b.add after name attributes).toOption = (b.add 0 name attributes).toOption := by
  unfold add
  split
  · rfl
  · split <;> rfl

theorem toOption_accept (b : Builder) (p : Placed) : (b.accept p).toOption = b.take p.markup := by
  obtain ⟨after, markup⟩ := p
  unfold take accept
  cases markup with
  | opening name attributes =>
    have hadd := b.toOption_add after name attributes
    dsimp only
    cases h : b.add after name attributes <;> cases h' : b.add 0 name attributes <;>
      simp_all [Except.toOption, Except.map]
  | void name attributes => exact b.toOption_add after name attributes
  | closing name =>
    dsimp only
    cases b.unclosed with
    | nil => rfl
    | cons id outer =>
      dsimp only
      split <;> rfl
  | characters => rfl

theorem toOption_run (b : Builder) (markup : List Placed) :
    (markup.foldlM accept b).toOption = (markup.map Placed.markup).foldlM take b := by
  induction markup generalizing b with
  | nil => rfl
  | cons p rest ih =>
    rw [List.foldlM_cons, List.map_cons, List.foldlM_cons, ← toOption_accept]
    cases b.accept p with
    | error f => rfl
    | ok b' => exact ih b'

inductive Takes (b : Builder) : Markup → Builder → Prop where
  | opening {name attributes : List Char} {b₁ : Builder}
      (h : b.add 0 name attributes = .ok b₁) : Takes b (.opening name attributes) b₁.enterLast
  | void {name attributes : List Char} {b₁ : Builder}
      (h : b.add 0 name attributes = .ok b₁) : Takes b (.void name attributes) b₁
  | closing {name : List Char} {id : Nat} {outer : List Nat} (hopen : b.unclosed = id :: outer)
      (hname : b.nameOf id = String.ofList name) :
      Takes b (.closing name) { b with unclosed := outer }
  | characters : Takes b .characters b.markText

theorem takes_of_take {b b' : Builder} {m : Markup} (h : b.take m = some b') : b.Takes m b' := by
  unfold take accept at h
  cases m with
  | opening name attributes =>
    dsimp only at h
    cases hadd : b.add 0 name attributes with
    | error f =>
      rw [hadd] at h
      cases h
    | ok b₁ =>
      rw [hadd] at h
      obtain rfl := Option.some.inj h
      exact .opening hadd
  | void name attributes =>
    dsimp only at h
    cases hadd : b.add 0 name attributes with
    | error f =>
      rw [hadd] at h
      cases h
    | ok b₁ =>
      rw [hadd] at h
      obtain rfl := Option.some.inj h
      exact .void hadd
  | closing name =>
    dsimp only at h
    split at h
    · next id outer hopen =>
      split at h
      · next hname =>
        obtain rfl := Option.some.inj h
        exact .closing hopen hname
      · cases h
    · cases h
  | characters =>
    obtain rfl := Option.some.inj h
    exact .characters

theorem take_closing {b : Builder} {id : Nat} {outer : List Nat} (hopen : b.unclosed = id :: outer) :
    b.take (.closing (b.nameOf id).toList) = some { b with unclosed := outer } := by
  unfold take accept
  simp [hopen, Except.toOption]

section Start

variable {b : Builder} {attributes : List Char} {as : List Attribute}
  (hroot : b.unclosed = [] → b.elements.size = 0) (hread : Attribute.read? attributes = some as)
  (name : List Char)
include hroot hread

theorem take_opening : b.take (.opening name attributes) = some
    { elements := b.linked.push
        { name := String.ofList name, attributes := as, parent := b.unclosed.head?
          depth := b.unclosed.length }
      unclosed := b.elements.size :: b.unclosed } := by
  unfold take accept
  dsimp only
  rw [add_of_read hroot hread]
  simp [Except.map, Except.toOption, enterLast]

theorem take_void : b.take (.void name attributes) = some
    { elements := b.linked.push
        { name := String.ofList name, attributes := as, parent := b.unclosed.head?
          depth := b.unclosed.length }
      unclosed := b.unclosed } := by
  unfold take accept
  dsimp only
  rw [add_of_read hroot hread]
  rfl

end Start

theorem add_spec {b b' : Builder} {after : Nat} {name attributes : List Char}
    (h : b.add after name attributes = .ok b') :
    b.document.Within b'.document ∧ b'.document.size = b.document.size + 1 ∧ b'.unclosed = b.unclosed ∧
      b'.document.name b.document.size = String.ofList name ∧
      Attribute.read? attributes = some (b'.document.element b.document.size).attributes := by
  obtain ⟨e, -, -, hname, -, -, hattributes, -, rfl⟩ := add_eq_ok h
  have hnew : (b.grown e).element b.document.size = e := by rw [element_grown, if_pos rfl]
  refine ⟨⟨Nat.le_of_lt (Nat.lt_of_lt_of_eq (Nat.lt_succ_self _) (b.size_grown e).symm), ?_⟩,
    b.size_grown e, rfl, ?_, ?_⟩
  · intro id hid
    change ((b.grown e).element id).start = _
    rw [element_grown, if_neg (Nat.ne_of_lt hid)]
    split <;> rfl
  · exact (congrArg Element.name hnew).trans hname
  · exact hattributes.trans (congrArg (some ·.attributes) hnew.symm)

theorem size_markText (b : Builder) : b.markText.document.size = b.document.size := by
  obtain ⟨elements, _ | ⟨id, outer⟩⟩ := b <;> simp [markText, document, Document.size]

theorem unclosed_markText (b : Builder) : b.markText.unclosed = b.unclosed := by
  obtain ⟨elements, _ | ⟨id, outer⟩⟩ := b <;> rfl

theorem within_markText (b : Builder) : b.document.Within b.markText.document := by
  refine ⟨Nat.le_of_eq b.size_markText.symm, fun id _ => ?_⟩
  obtain ⟨hasText, h⟩ := b.element_markText id
  rw [h]
  rfl

/-- Every construct keeps the start tags that are there, and a start tag adds one. -/
theorem within_take {b b' : Builder} {m : Markup} (h : b.take m = some b') :
    b.document.Within b'.document ∧ b'.document.size = b.document.size + (if m.isStart then 1 else 0) := by
  cases takes_of_take h with
  | opening hadd =>
    obtain ⟨hwithin, hsize, -⟩ := add_spec hadd
    exact ⟨hwithin, hsize⟩
  | void hadd =>
    obtain ⟨hwithin, hsize, -⟩ := add_spec hadd
    exact ⟨hwithin, hsize⟩
  | closing => exact ⟨.refl _, rfl⟩
  | characters => exact ⟨b.within_markText, b.size_markText⟩

theorem within_run {b b' : Builder} {markup : List Markup} (h : markup.foldlM take b = some b') :
    b.document.Within b'.document ∧ b'.document.size = b.document.size + markup.countP (·.isStart) := by
  induction markup generalizing b with
  | nil =>
    obtain rfl := Option.some.inj h
    exact ⟨.refl _, rfl⟩
  | cons m rest ih =>
    rw [List.foldlM_cons] at h
    obtain ⟨b₁, hm, hrest⟩ := Option.bind_eq_some_iff.mp h
    obtain ⟨hwithin, hsize⟩ := within_take hm
    obtain ⟨hwithin', hsize'⟩ := ih hrest
    refine ⟨hwithin.trans hwithin', ?_⟩
    rw [hsize', hsize, List.countP_cons]
    omega

theorem sound_take {b b' : Builder} (hb : b.Sound) {m : Markup} (h : b.take m = some b') :
    b'.Sound := by
  unfold take at h
  cases haccept : b.accept ⟨0, m⟩ with
  | error f =>
    rw [haccept] at h
    cases h
  | ok b₁ =>
    rw [haccept] at h
    obtain rfl := Option.some.inj h
    exact (sound_accept hb haccept).1

theorem sound_takeAll {b b' : Builder} (hb : b.Sound) {markup : List Markup}
    (h : markup.foldlM take b = some b') : b'.Sound := by
  induction markup generalizing b with
  | nil =>
    obtain rfl := Option.some.inj h
    exact hb
  | cons m rest ih =>
    rw [List.foldlM_cons] at h
    obtain ⟨b₁, hm, hrest⟩ := Option.bind_eq_some_iff.mp h
    exact ih (sound_take hb hm) hrest

theorem nameOf_eq (b : Builder) (id : Nat) : b.nameOf id = b.document.name id := rfl

def Holds (d : Document) (m : Markup) : Prop :=
  match m with
  | .opening name attributes | .void name attributes => ∃ id < d.size,
      d.name id = String.ofList name ∧
        Attribute.read? attributes = some (d.element id).attributes
  | .closing name => ∃ id < d.size, d.name id = String.ofList name
  | .characters => True

theorem holds_take {b b' : Builder} (hb : b.Sound) {m : Markup} (h : b.take m = some b') :
    Holds b'.document m := by
  cases takes_of_take h with
  | opening hadd =>
    obtain ⟨-, hsize, -, hname, hattributes⟩ := add_spec hadd
    exact ⟨b.document.size, Nat.lt_of_lt_of_eq (Nat.lt_succ_self _) hsize.symm, hname, hattributes⟩
  | void hadd =>
    obtain ⟨-, hsize, -, hname, hattributes⟩ := add_spec hadd
    exact ⟨b.document.size, Nat.lt_of_lt_of_eq (Nat.lt_succ_self _) hsize.symm, hname, hattributes⟩
  | @closing name id outer hopen hname =>
    exact ⟨id, hb.open_lt id (by rw [hopen]; exact List.mem_cons_self), hname⟩
  | characters => trivial

theorem Holds.within {d larger : Document} (h : d.Within larger) {m : Markup} (hm : Holds d m) :
    Holds larger m := by
  unfold Holds at *
  split at hm
  · obtain ⟨id, hid, hname, hattributes⟩ := hm
    exact ⟨id, Nat.lt_of_lt_of_le hid h.size_le, (h.name_eq hid).trans hname,
      by rw [h.attributes_eq hid, hattributes]⟩
  · obtain ⟨id, hid, hname, hattributes⟩ := hm
    exact ⟨id, Nat.lt_of_lt_of_le hid h.size_le, (h.name_eq hid).trans hname,
      by rw [h.attributes_eq hid, hattributes]⟩
  · obtain ⟨id, hid, hname⟩ := hm
    exact ⟨id, Nat.lt_of_lt_of_le hid h.size_le, (h.name_eq hid).trans hname⟩
  · trivial

theorem holds_run {b b' : Builder} (hb : b.Sound) {markup : List Markup}
    (h : markup.foldlM take b = some b') : ∀ m ∈ markup, Holds b'.document m := by
  induction markup generalizing b with
  | nil => nofun
  | cons m rest ih =>
    rw [List.foldlM_cons] at h
    obtain ⟨b₁, hm, hrest⟩ := Option.bind_eq_some_iff.mp h
    rintro m' (_ | ⟨_, hmem⟩)
    · exact (holds_take hb hm).within (within_run hrest).1
    · exact ih (sound_take hb hm) hrest m' hmem

def openNames (b : Builder) : List (List Char) := b.unclosed.map fun id => (b.nameOf id).toList

theorem names_within {b : Builder} (hb : b.Sound) {d : Document} (h : b.document.Within d) :
    (b.unclosed.map fun id => (d.name id).toList) = b.openNames :=
  List.map_congr_left fun id hid => by rw [h.name_eq (hb.open_lt id hid), nameOf_eq]

/-- Repair follows the names of the open elements. -/
theorem track_take {b b' : Builder} (hb : b.Sound) {m : Markup} (h : b.take m = some b') :
    Repair.track b.openNames m = some b'.openNames := by
  have hnames := names_within hb (within_take h).1
  cases takes_of_take h with
  | @opening name attributes b₁ hadd =>
    obtain ⟨-, hsize, hopen, hname, -⟩ := add_spec hadd
    have hnew : b₁.elements.size - 1 = b.document.size := Nat.sub_eq_of_eq_add hsize
    have hfirst : (b₁.nameOf b.document.size).toList = name := by
      rw [nameOf_eq, hname, String.toList_ofList]
    have hopened : b₁.enterLast.openNames = name :: b.openNames := by
      rw [← hnames, ← hopen, ← hfirst, ← hnew]
      rfl
    rw [hopened, Repair.track]
  | void hadd =>
    obtain ⟨-, -, hopen, -⟩ := add_spec hadd
    change some b.openNames = some b'.openNames
    rw [← hnames, openNames, hopen]
    rfl
  | @closing name id outer hopen hname =>
    have hinner : (b.nameOf id).toList = name := by rw [hname, String.toList_ofList]
    rw [openNames, hopen, List.map_cons, hinner]
    exact if_pos rfl
  | characters =>
    change some b.openNames = some b.markText.openNames
    rw [← hnames, openNames, unclosed_markText]
    rfl

theorem track_run {b b' : Builder} (hb : b.Sound) {markup : List Markup}
    (h : markup.foldlM take b = some b') :
    markup.foldlM Repair.track b.openNames = some b'.openNames := by
  induction markup generalizing b with
  | nil =>
    obtain rfl := Option.some.inj h
    rfl
  | cons m rest ih =>
    rw [List.foldlM_cons] at h ⊢
    obtain ⟨b₁, hm, hrest⟩ := Option.bind_eq_some_iff.mp h
    exact Option.bind_eq_some_iff.mpr ⟨_, track_take hb hm, ih (sound_take hb hm) hrest⟩

/-- The end tags of all open elements, innermost first, close them. -/
theorem run_closing (b : Builder) :
    (b.openNames.map Markup.closing).foldlM take b = some { b with unclosed := [] } := by
  obtain ⟨elements, unclosed⟩ := b
  induction unclosed with
  | nil => rfl
  | cons id outer ih =>
    rw [openNames, List.map_cons, List.map_cons, List.foldlM_cons, take_closing rfl]
    exact ih

end Builder

theorem exists_scan (text : List Char) : ∃ lead, (lead = [] ∨ lead = [Markup.characters]) ∧
    (scan text).markup.map Placed.markup =
      lead ++ (Mode.content false).emits (fromMarkup text) := by
  obtain ⟨lead, hlead, hemits, -⟩ := Mode.emits_fromMarkup false (withoutByteOrderMark text)
  exact ⟨lead, hlead, by rw [markup_scan, hemits, fromMarkup_withoutByteOrderMark]⟩

theorem mem_scan_of_emits {text : List Char} {m : Markup}
    (h : m ∈ (Mode.content false).emits (fromMarkup text)) :
    m ∈ (scan text).markup.map Placed.markup := by
  obtain ⟨lead, -, hscan⟩ := exists_scan text
  rw [hscan]
  exact List.mem_append_right lead h

namespace Document

theorem run_eq_ok {markup : List Placed} {b b' : Builder} :
    markup.foldlM Builder.accept b = .ok b' ↔
      (markup.map Placed.markup).foldlM Builder.take b = some b' := by
  rw [← Builder.toOption_run]
  cases markup.foldlM Builder.accept b <;> simp [Except.toOption]

theorem run_fromMarkup (text : List Char) :
    ((scan text).markup.map Placed.markup).foldlM Builder.take {} =
      ((Mode.content false).emits (fromMarkup text)).foldlM Builder.take {} := by
  obtain ⟨lead, hlead, hscan⟩ := exists_scan text
  rw [hscan]
  obtain rfl | rfl := hlead
  · rfl
  · rfl

theorem atRest_fromMarkup (text : List Char) :
    (scan text).atRest = true ↔ ((Mode.content false).after (fromMarkup text)).IsContent := by
  obtain ⟨-, -, -, hafter⟩ := Mode.emits_fromMarkup false (withoutByteOrderMark text)
  rw [atRest_iff, mode_scan, hafter, fromMarkup_withoutByteOrderMark]

/-- A text is a document if all its markup is complete and taken, and every element is closed. -/
theorem parse?_iff {content : String} {d : Document} : parse? content = some d ↔
    ((Mode.content false).after (fromMarkup content.toList)).IsContent ∧
      ∃ b, ((Mode.content false).emits (fromMarkup content.toList)).foldlM Builder.take {} = some b ∧
        b.unclosed = [] ∧ b.elements.size ≠ 0 ∧ d = b.document := by
  rw [parse?_eq_some, parseChars_eq_ok, atRest_fromMarkup]
  simp only [run_eq_ok, run_fromMarkup]
  refine and_iff_right_of_imp ?_
  rintro ⟨-, b, hrun, -, hsize, -⟩
  -- A text without markup has no element.
  obtain ⟨-, hnone⟩ | ⟨lead, rest, -, htext, -⟩ := fromMarkup_cases content.toList
  · rw [hnone] at hrun
    obtain rfl := Option.some.inj hrun
    exact absurd rfl hsize
  · rw [htext, List.all_append, List.all_cons]
    simp [Text.isBlank]

end Document

end Replay.Xml
