import Replay.Proofs.Xml.Likeness
import Replay.Proofs.Xml.Nesting
import Replay.Proofs.Xml.Rescale.Attributes
import Replay.Proofs.Xml.Rescale.Markup
set_option autoImplicit false

namespace Replay.Xml

open Rescale

section MapAttributes

variable (f : Attribute → Attribute)

def Element.mapAttributes (e : Element) : Element := { e with attributes := e.attributes.map f }

def Document.mapAttributes (d : Document) : Document := ⟨d.elements.map (Element.mapAttributes f)⟩

def Builder.mapAttributes (b : Builder) : Builder :=
  { b with elements := b.elements.map (Element.mapAttributes f) }

inductive Markup.Corresponds : Markup → Markup → Prop where
  | opening {name attributes attributes' : List Char}
      (h : ∀ as, Attribute.read? attributes = some as →
        Attribute.read? attributes' = some (as.map f)) :
      Corresponds (.opening name attributes) (.opening name attributes')
  | void {name attributes attributes' : List Char}
      (h : ∀ as, Attribute.read? attributes = some as →
        Attribute.read? attributes' = some (as.map f)) :
      Corresponds (.void name attributes) (.void name attributes')
  | closing {name : List Char} : Corresponds (.closing name) (.closing name)
  | characters : Corresponds .characters .characters

variable {f}

theorem Markup.Corresponds.alike {m m' : Markup} (h : m.Corresponds f m') :
    m.Alike id (fun as as' => as' = as.map f) m' := by
  cases h with
  | opening h => exact .opening fun as has => ⟨_, h as has, rfl⟩
  | void h => exact .void fun as has => ⟨_, h as has, rfl⟩
  | closing => exact .closing
  | characters => exact .characters

theorem Element.Alike.eq_mapAttributes {e e' : Element}
    (h : e.Alike id (fun as as' => as' = as.map f) e') : e' = e.mapAttributes f := by
  obtain ⟨hname, hattributes, hparent, hchildren, hdepth, htext⟩ := h
  cases e
  cases e'
  rw [Element.mapAttributes, Element.mk.injEq]
  exact ⟨String.toList_injective hname, hattributes, hparent, hchildren, hdepth, htext⟩

theorem Document.element_mapAttributes (d : Document) (id : Nat) :
    (d.mapAttributes f).element id = (d.element id).mapAttributes f := by
  rw [element_eq, element_eq, mapAttributes, Array.getElem?_map]
  cases d.elements[id]? with
  | none => rfl
  | some e => rfl

namespace Builder

theorem mapAttributes_empty : Builder.mapAttributes f {} = {} := by
  simp [mapAttributes]

theorem alike_mapAttributes (b : Builder) :
    b.Alike id (fun as as' => as' = as.map f) (b.mapAttributes f) where
  unclosed_eq := rfl
  document :=
    { size_eq := Array.size_map
      element := fun id => by
        have hid := Document.element_mapAttributes (f := f) b.document id
        exact hid ▸ ⟨rfl, rfl, rfl, rfl, rfl, rfl⟩ }

theorem eq_mapAttributes {b b' : Builder} (h : b.Alike id (fun as as' => as' = as.map f) b') :
    b' = b.mapAttributes f := by
  obtain ⟨elements, unclosed⟩ := b
  obtain ⟨elements', unclosed'⟩ := b'
  obtain ⟨rfl, hsize, helement⟩ := h
  refine congrArg (Builder.mk · _) (Array.ext (hsize.trans Array.size_map.symm) ?_)
  intro i hi hi'
  have hi : i < elements'.size := hi
  have hlt : i < elements.size := Nat.lt_of_lt_of_eq hi hsize
  have halike := helement i
  rw [Document.element_eq, Document.element_eq, document, document, Array.getElem?_eq_getElem hi,
    Array.getElem?_eq_getElem hlt, Option.getD_some, Option.getD_some] at halike
  rw [Array.getElem_map]
  exact halike.eq_mapAttributes

theorem run_mapAttributes {b b' : Builder} {markup : List Markup} {g : Markup → Markup}
    (hmarkup : ∀ m ∈ markup, m.Corresponds f (g m)) (h : markup.foldlM take b = some b') :
    (markup.map g).foldlM take (b.mapAttributes f) = some (b'.mapAttributes f) := by
  have halike : List.Forall₂ (Markup.Alike id (fun as as' => as' = as.map f)) markup
      (markup.map g) := by
    rw [List.forall₂_map_right_iff, List.forall₂_same]
    exact fun m hm => (hmarkup m hm).alike
  obtain ⟨c, hrun, hc⟩ := run_alike halike b.alike_mapAttributes h
  rw [hrun, eq_mapAttributes hc]

end Builder

end MapAttributes

variable (change : Rect → Rect)

def Document.mapBounds (d : Document) : Document := d.mapAttributes (Attribute.mapBounds change)

theorem Attribute.key_mapBounds (a : Attribute) : (a.mapBounds change).key = a.key := by
  unfold mapBounds
  split <;> rfl

theorem Attribute.mapBounds_of_ne {a : Attribute} (h : a.key ≠ "bounds") :
    a.mapBounds change = a := if_neg h

theorem Attribute.rect_mapBounds {a : Attribute} (h : a.key = "bounds") :
    Rect.parse? (a.mapBounds change).value = (Rect.parse? a.value).map change := by
  rw [mapBounds, if_pos h]
  cases hread : Rect.parse? a.value with
  | none => exact hread
  | some r => exact Rect.parse?_render (change r)

namespace Document

theorem attribute?_mapBounds (d : Document) (id : Nat) (key : String) :
    (d.mapBounds change).attribute? id key =
      (((d.element id).attributes.find? (·.key == key)).map (Attribute.mapBounds change)).map
        (·.value) := by
  rw [attribute?, mapBounds, element_mapAttributes, Element.mapAttributes, List.find?_map]
  simp only [Function.comp_def, Attribute.key_mapBounds]

theorem attribute?_mapBounds_of_ne (d : Document) (id : Nat) {key : String} (h : key ≠ "bounds") :
    (d.mapBounds change).attribute? id key = d.attribute? id key := by
  rw [attribute?_mapBounds, attribute?]
  cases hfind : (d.element id).attributes.find? (·.key == key) with
  | none => rfl
  | some a =>
    have hkey : a.key = key := by simpa using List.find?_some hfind
    rw [Option.map_some, Attribute.mapBounds_of_ne change (hkey ▸ h)]

theorem bounds?_mapBounds (d : Document) (id : Nat) :
    (d.mapBounds change).bounds? id = (d.bounds? id).map change := by
  rw [bounds?, bounds?, attribute?_mapBounds, attribute?]
  cases hfind : (d.element id).attributes.find? (·.key == "bounds") with
  | none => rfl
  | some a =>
    have hkey : a.key = "bounds" := by simpa using List.find?_some hfind
    simp only [Option.map_some, Option.bind_eq_bind, Option.bind_some]
    exact Attribute.rect_mapBounds change hkey

end Document

/-- Rescaling finds the bounds of elements in their tags, and nothing else. -/
structure Document.Rescalable (d : Document) (markup : List Markup) : Prop where
  names : ∀ id < d.size, Unfound (d.name id).toList []
  attributes : ∀ m ∈ markup, ∀ name attributes, m.start? = some (name, attributes) →
    Recognized attributes

theorem Document.Rescalable.corresponds {d : Document} {markup : List Markup}
    (h : d.Rescalable markup) {m : Markup} (hm : m ∈ markup) (hholds : Builder.Holds d m) :
    m.Corresponds (Attribute.mapBounds change) (m.rescaled change) := by
  have hname {id : Nat} (hid : id < d.size) {name : List Char}
      (heq : d.name id = String.ofList name) : mapBoundsChars change name = name := by
    have hunfound := h.names id hid
    rw [heq, String.toList_ofList] at hunfound
    exact map_of_unfound change hunfound
  cases m with
  | opening name attributes =>
    obtain ⟨id, hid, heq, -⟩ := hholds
    rw [Markup.rescaled, hname hid heq]
    exact .opening fun as has => Attribute.read?_map change has (h.attributes _ hm _ _ rfl)
  | void name attributes =>
    obtain ⟨id, hid, heq, -⟩ := hholds
    rw [Markup.rescaled, hname hid heq]
    exact .void fun as has => Attribute.read?_map change has (h.attributes _ hm _ _ rfl)
  | closing name =>
    obtain ⟨id, hid, heq⟩ := hholds
    rw [Markup.rescaled, hname hid heq]
    exact .closing
  | characters => exact .characters

namespace Document

/-- Rescaling a text rescales its document: if bounds are found where they are and nowhere else, the
elements stay, and of their attributes the bounds only are changed, by the same function as in the
text, such as the scaling by two factors. -/
theorem parse?_mapBounds {content : String} {d : Document} (h : parse? content = some d)
    (hfound : d.Rescalable ((scan content.toList).markup.map Placed.markup)) :
    parse? (Rescale.mapBounds change content) = some (d.mapBounds change) ∧
      ∀ id, (d.mapBounds change).bounds? id = (d.bounds? id).map change ∧
        ∀ key ≠ "bounds", (d.mapBounds change).attribute? id key = d.attribute? id key := by
  refine ⟨?_, fun id => ⟨d.bounds?_mapBounds change id, fun key hkey =>
    d.attribute?_mapBounds_of_ne change id hkey⟩⟩
  obtain ⟨hrest, b, hrun, hopen, hsize, rfl⟩ := parse?_iff.mp h
  obtain ⟨hemits, hafter⟩ := Mode.scan_content_map change false (fromMarkup content.toList)
  have hholds := Builder.holds_run Builder.sound_empty hrun
  have hmapped := Builder.run_mapAttributes
    (fun m hm => hfound.corresponds change (mem_scan_of_emits hm) (hholds m hm)) hrun
  rw [Builder.mapAttributes_empty] at hmapped
  rw [parse?_iff, Rescale.mapBounds, String.toList_ofList, fromMarkup_map, hemits]
  exact ⟨hafter.mpr hrest, _, hmapped, hopen, by rwa [Builder.mapAttributes, Array.size_map], rfl⟩

theorem parse?_mapBounds_quotedText :
    let content :=
      "<hierarchy><node text='bounds=\"x\" [1,2]' bounds=\"[0,0][10,-20]\"/></hierarchy>"
    let d : Document := ⟨#[
      { name := "hierarchy", attributes := [], parent := none, children := #[1], depth := 0 },
      { name := "node", attributes := [⟨"text", "bounds=\"x\" [1,2]"⟩, ⟨"bounds", "[0,0][10,-20]"⟩]
        parent := some 0, depth := 1 }]⟩
    parse? content = some d ∧ d.Rescalable ((scan content.toList).markup.map Placed.markup) ∧
      ∃ scaled, parse? (Rescale.mapBounds (Rect.scaled 2 0.5) content) = some scaled ∧
        scaled.bounds? 1 = some (Rect.scaled 2 0.5 ⟨0, 0, 10, -20⟩) ∧
        scaled.attribute? 1 "text" = some "bounds=\"x\" [1,2]" := by
  intro content d
  have hparse : parse? content = some d := by decide +kernel +zetaReduce
  have hsplit : splitBounds? "bounds=\"[0,0][10,-20]\"".toList =
      some ("[0,0][10,-20]".toList, []) := by decide +kernel
  let text : Spelling :=
    { lead := [' '], first := 't', more := "ext".toList, quote := '\''
      raw := "bounds=\"x\" [1,2]".toList }
  let bounds : Spelling :=
    { lead := [' '], first := 'b', more := "ounds".toList, raw := "[0,0][10,-20]".toList }
  have hbounds : bounds.Found := ⟨rfl, rfl, rfl, rfl, (splitBounds?_eq_some.mp hsplit).1⟩
  have hmarkup : (scan content.toList).markup.map Placed.markup =
      [.opening "hierarchy".toList [], .void "node".toList (text.text ++ (bounds.text ++ [])),
        .closing "hierarchy".toList] := by decide +kernel +zetaReduce
  have hnode : Recognized (text.text ++ (bounds.text ++ [])) :=
    .passed (by decide +kernel +zetaReduce) (by decide +kernel +zetaReduce)
      (.found hbounds (.nil nofun))
  have hfound : d.Rescalable ((scan content.toList).markup.map Placed.markup) := by
    refine ⟨by decide +kernel +zetaReduce, ?_⟩
    rw [hmarkup]
    rintro m hm name attributes hstart
    simp only [List.mem_cons, List.not_mem_nil, or_false] at hm
    obtain rfl | rfl | rfl := hm
    · obtain ⟨-, rfl⟩ := Prod.mk.inj (Option.some.inj hstart)
      exact .nil nofun
    · obtain ⟨-, rfl⟩ := Prod.mk.inj (Option.some.inj hstart)
      exact hnode
    · cases hstart
  obtain ⟨hscaled, helements⟩ := parse?_mapBounds (Rect.scaled 2 0.5) hparse hfound
  obtain ⟨hbounds', hothers⟩ := helements 1
  have hrect : d.bounds? 1 = some ⟨0, 0, 10, -20⟩ := by decide +kernel +zetaReduce
  have htext : d.attribute? 1 "text" = some "bounds=\"x\" [1,2]" := by decide +kernel +zetaReduce
  rw [hrect] at hbounds'
  exact ⟨hparse, hfound, _, hscaled, hbounds', (hothers "text" (by decide)).trans htext⟩

/-- Bounds in single quotes are read, but not found. -/
theorem mapBounds_singleQuoted :
    let content := "<hierarchy><node bounds='[0,0][10,10]'/></hierarchy>"
    let doubled := Rect.map (· * 2) (· * 2)
    ∃ d, parse? content = some d ∧ parse? (Rescale.mapBounds doubled content) = some d ∧
      d.bounds? 1 = some ⟨0, 0, 10, 10⟩ ∧ doubled ⟨0, 0, 10, 10⟩ = ⟨0, 0, 20, 20⟩ := by
  intro content doubled
  let d : Document := ⟨#[
    { name := "hierarchy", attributes := [], parent := none, children := #[1], depth := 0 },
    { name := "node", attributes := [⟨"bounds", "[0,0][10,10]"⟩], parent := some 0, depth := 1 }]⟩
  have hsame : Rescale.mapBounds doubled content = content := by
    have hquote : '"' ∉ content.toList := by decide +kernel +zetaReduce
    rw [Rescale.mapBounds, map_of_notMem doubled hquote, String.ofList_toList]
  have hparse : parse? content = some d := by decide +kernel +zetaReduce
  refine ⟨d, hparse, ?_, by decide +kernel +zetaReduce, by decide +kernel +zetaReduce⟩
  rw [hsame]
  exact hparse

end Document

end Replay.Xml
