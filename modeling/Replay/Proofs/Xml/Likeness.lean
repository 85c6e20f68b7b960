import Mathlib.Data.List.Forall2
import Replay.Proofs.Xml.Rewriting
set_option autoImplicit false

/-!
Documents of one shape. A builder sees names, and whether the attributes of a tag can be read; so from
tags that agree in this much it builds the same tree (`Builder.run_alike`), with names that are rewritten
and attributes that are related as those of the tags are.
-/

namespace Replay.Xml

section Alike

variable (T : List Char → List Char) (A : List Attribute → List Attribute → Prop)

structure Element.Alike (e e' : Element) : Prop where
  name_eq : e'.name.toList = T e.name.toList
  attributes : A e.attributes e'.attributes
  parent_eq : e'.parent = e.parent
  children_eq : e'.children = e.children
  depth_eq : e'.depth = e.depth
  hasText_eq : e'.hasText = e.hasText

structure Document.Alike (d d' : Document) : Prop where
  size_eq : d'.size = d.size
  element : ∀ id, (d.element id).Alike T A (d'.element id)

def ReadsAlike (attributes attributes' : List Char) : Prop :=
  ∀ as, Attribute.read? attributes = some as →
    ∃ as', Attribute.read? attributes' = some as' ∧ A as as'

def SameKeys (as as' : List Attribute) : Prop := as'.map (·.key.toList) = as.map (T ·.key.toList)

inductive Markup.Alike : Markup → Markup → Prop where
  | opening {name attributes attributes' : List Char} (h : ReadsAlike A attributes attributes') :
      Alike (.opening name attributes) (.opening (T name) attributes')
  | void {name attributes attributes' : List Char} (h : ReadsAlike A attributes attributes') :
      Alike (.void name attributes) (.void (T name) attributes')
  | closing {name : List Char} : Alike (.closing name) (.closing (T name))
  | characters : Alike .characters .characters

structure Builder.Alike (b b' : Builder) : Prop where
  unclosed_eq : b'.unclosed = b.unclosed
  document : b.document.Alike T A b'.document

end Alike

variable {T : List Char → List Char} {A : List Attribute → List Attribute → Prop}

namespace Builder

theorem alike_empty (hT : T [] = []) (hA : A [] []) : Alike T A {} {} :=
  ⟨rfl, rfl, fun _ => ⟨hT.symm, hA, rfl, rfl, rfl, rfl⟩⟩

theorem Alike.grown {b b' : Builder} (h : b.Alike T A b') {e e' : Element} (he : e.Alike T A e') :
    (b.grown e).Alike T A (b'.grown e') where
  size_eq := by rw [size_grown, size_grown, h.document.size_eq]
  element id := by
    have hid := h.document.element id
    rw [element_grown, element_grown, h.document.size_eq, h.unclosed_eq]
    split
    · exact he
    · split
      · exact ⟨hid.name_eq, hid.attributes, hid.parent_eq, by rw [hid.children_eq], hid.depth_eq,
          hid.hasText_eq⟩
      · exact hid

theorem Alike.markText {b b' : Builder} (h : b.Alike T A b') : b.markText.Alike T A b'.markText where
  unclosed_eq := by rw [unclosed_markText, unclosed_markText, h.unclosed_eq]
  document :=
    { size_eq := by rw [size_markText, size_markText, h.document.size_eq]
      element := fun id => by
        have hid := h.document.element id
        rw [element_markText_eq, element_markText_eq, h.document.size_eq, h.unclosed_eq]
        split
        · exact ⟨hid.name_eq, hid.attributes, hid.parent_eq, hid.children_eq, hid.depth_eq, rfl⟩
        · exact hid }

theorem add_alike {b b' c : Builder} {name attributes attributes' : List Char}
    (hread : ReadsAlike A attributes attributes') (h : b.Alike T A b')
    (hadd : b.add 0 name attributes = .ok c) :
    ∃ c', b'.add 0 (T name) attributes' = .ok c' ∧ c.Alike T A c' := by
  obtain ⟨e, hparent, hchildren, hname, hdepth, hnoText, has, hroot, rfl⟩ := add_eq_ok hadd
  obtain ⟨as', has', hattributes⟩ := hread _ has
  have hroot' : b'.unclosed = [] → b'.elements.size = 0 := fun hopen =>
    h.document.size_eq.trans (hroot (h.unclosed_eq ▸ hopen))
  refine ⟨_, add_of_read hroot' has' 0 (T name), h.unclosed_eq, h.grown ?_⟩
  exact ⟨by rw [hname, String.toList_ofList, String.toList_ofList], hattributes,
    by rw [hparent, h.unclosed_eq], hchildren.symm, by rw [hdepth, h.unclosed_eq], hnoText.symm⟩

theorem take_alike {b b' c : Builder} {m m' : Markup} (hm : m.Alike T A m') (h : b.Alike T A b')
    (htake : b.take m = some c) : ∃ c', b'.take m' = some c' ∧ c.Alike T A c' := by
  cases hm with
  | opening hread =>
    cases takes_of_take htake with
    | opening hadd =>
      obtain ⟨c', hadd', hc⟩ := add_alike hread h hadd
      refine ⟨c'.enterLast, ?_, ?_, hc.document⟩
      · unfold take accept
        dsimp only
        rw [hadd']
        rfl
      · have hsize := hc.document.size_eq
        simp only [enterLast, hc.unclosed_eq]
        exact congrArg (fun n => (n - 1) :: _) hsize
  | void hread =>
    cases takes_of_take htake with
    | void hadd =>
      obtain ⟨c', hadd', hc⟩ := add_alike hread h hadd
      refine ⟨c', ?_, hc⟩
      unfold take accept
      dsimp only
      rw [hadd']
      rfl
  | @closing name =>
    cases takes_of_take htake with
    | @closing _ id outer hopen hname =>
      have hname' : (b'.nameOf id).toList = T name := by
        have hsame := (h.document.element id).name_eq
        have hold : (b.document.element id).name = String.ofList name := hname
        rw [hold, String.toList_ofList] at hsame
        exact hsame
      rw [← hname']
      exact ⟨_, take_closing (h.unclosed_eq.trans hopen), rfl, h.document⟩
  | characters =>
    obtain rfl := Option.some.inj htake
    exact ⟨_, rfl, h.markText⟩

theorem run_alike {b b' c : Builder} {markup markup' : List Markup}
    (hmarkup : List.Forall₂ (Markup.Alike T A) markup markup') (h : b.Alike T A b')
    (hrun : markup.foldlM take b = some c) :
    ∃ c', markup'.foldlM take b' = some c' ∧ c.Alike T A c' := by
  induction hmarkup generalizing b b' with
  | nil =>
    obtain rfl := Option.some.inj hrun
    exact ⟨b', rfl, h⟩
  | cons hm _ ih =>
    rw [List.foldlM_cons] at hrun
    obtain ⟨b₁, htake, hrest⟩ := Option.bind_eq_some_iff.mp hrun
    obtain ⟨b₁', htake', h₁⟩ := take_alike hm h htake
    obtain ⟨c', hrest', hc⟩ := ih h₁ hrest
    exact ⟨c', by rw [List.foldlM_cons, htake']; exact hrest', hc⟩

end Builder

/-- A text that is read as markup of the same shape is a document of the same shape. -/
theorem Document.parse?_alike {content content' : String} {d : Document} (hT : T [] = [])
    (hA : A [] []) (h : parse? content = some d)
    (hrest : ((Mode.content false).after (fromMarkup content'.toList)).IsContent)
    (hmarkup : List.Forall₂ (Markup.Alike T A)
      ((Mode.content false).emits (fromMarkup content.toList))
      ((Mode.content false).emits (fromMarkup content'.toList))) :
    ∃ d', parse? content' = some d' ∧ d.Alike T A d' := by
  obtain ⟨-, b, hrun, hopen, hsize, rfl⟩ := parse?_iff.mp h
  obtain ⟨b', hrun', hb⟩ := Builder.run_alike hmarkup (Builder.alike_empty hT hA) hrun
  have hsize' : b'.elements.size = b.elements.size := hb.document.size_eq
  exact ⟨b'.document, parse?_iff.mpr ⟨hrest, b', hrun', hb.unclosed_eq.trans hopen,
    hsize' ▸ hsize, rfl⟩, hb.document⟩

end Replay.Xml
