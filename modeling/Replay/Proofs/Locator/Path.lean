import Replay.Locator.Resolution
import Replay.Proofs.XPath.Acceptance
import Replay.Proofs.XPath.Evaluation
set_option autoImplicit false

namespace Replay

open Xml (Document)

/-- All names on the way to an element are names for a path. -/
def Xml.Document.Named (d : Document) (id : Nat) : Prop :=
  ∀ a, d.Encloses a id → XPath.Reader.IsName (d.name a).toList

namespace XPath

theorem toList_segment (d : Document) (id : Nat) : (d.segment id).toList =
    match d.parent? id with
    | none => (d.name id).toList
    | some _ => (d.name id).toList ++ '[' :: (Nat.toDigits 10 (d.position id) ++ [']']) := by
  unfold Document.segment
  cases d.parent? id with
  | none => rfl
  | some p => simp [toString, Nat.toList_repr]

section Spelling

variable {g : Grammar} (hg : ∀ n, g.name n) {d : Document}
  (hplaces : ∀ id, g.predicate (.position (d.position id)) (Nat.toDigits 10 (d.position id)))
include hg hplaces

theorem spelled_segment {id : Nat} (hname : Reader.IsName (d.name id).toList) :
    (Step.to d id).Spelled g (d.segment id).toList := by
  rw [toList_segment, Step.to]
  cases d.parent? id with
  | none => exact ⟨_, [], (List.append_nil _).symm, ⟨rfl, hname, hg _⟩, .nil⟩
  | some p => exact ⟨_, _, rfl, ⟨rfl, hname, hg _⟩, .cons (hplaces id) .nil⟩

theorem separated_segments {ids : List Nat}
    (hnames : ∀ id ∈ ids, Reader.IsName (d.name id).toList) : Separated g (ids.map (Step.to d))
      (ids.flatMap fun id => '/' :: (d.segment id).toList) := by
  induction ids with
  | nil => exact .nil
  | cons id ids ih =>
    obtain ⟨hid, hids⟩ := List.forall_mem_cons.mp hnames
    exact .cons (spelled_segment hg hplaces hid) (ih hids)

end Spelling

theorem cons_intercalate_slash (texts : List (List Char)) (h : texts ≠ []) :
    '/' :: ['/'].intercalate texts = texts.flatMap fun t => '/' :: t := by
  induction texts with
  | nil => exact absurd rfl h
  | cons t texts ih =>
    cases texts with
    | nil => simp
    | cons u texts => simp [← ih]

theorem toList_path (d : Document) (id : Nat) :
    (d.path id).toList = (d.lineage id).flatMap fun a => '/' :: (d.segment a).toList := by
  have hslash : ("/" : String).toList = ['/'] := rfl
  rw [Document.path, Document.segments_eq, String.toList_append, String.toList_intercalate, hslash,
    List.singleton_append, List.map_map, cons_intercalate_slash _ (by simpa using d.lineage_ne_nil),
    List.flatMap_map]
  rfl

section Tree

variable {d : Document} (hd : d.IsTree) {id : Nat} (hnamed : d.Named id)
include hd hnamed

theorem spelled_path {g : Grammar} (hg : ∀ n, g.name n) (hplaces : ∀ a,
    g.predicate (.position (d.position a)) (Nat.toDigits 10 (d.position a))) :
    Path.Spelled g ⟨true, (d.lineage id).map (Step.to d)⟩ (d.path id).toList := by
  rw [toList_path]
  refine .absolute (by simpa using d.lineage_ne_nil) (separated_segments hg hplaces fun a ha => ?_)
  exact hnamed a ((Document.mem_lineage hd).mp ha)

theorem trim_path : Text.trim (d.path id).toList = (d.path id).toList := by
  have hpath := spelled_path hd hnamed (g := ⟨fun _ => True, fun _ _ => True⟩)
    (fun _ => trivial) fun _ => trivial
  exact hpath.isSolid.trim

theorem parse_path (hsize : d.size < UInt64.size) :
    parse (d.path id) = .ok ⟨true, (d.lineage id).map (Step.to d)⟩ := by
  have hposition (a : Nat) : d.position a < UInt64.size := by
    obtain hle | hroot := Document.position_le_size hd a
    · exact Nat.lt_of_le_of_lt hle hsize
    · rw [Document.position, hroot]
      exact (by decide : 1 < UInt64.size)
  rw [parse_eq_ok, trim_path hd hnamed]
  exact spelled_path hd hnamed (fun _ => trivial)
    fun a => Predicate.spelled_position (w := .any) (d.position_pos a) (hposition a)

end Tree

end XPath

namespace Locator

theorem element_of_resolve {d : Document} {l : Locator} {r : Resolved}
    (h : l.resolve d = some r) : r.element = d.summary r.node := by
  unfold resolve at h
  split at h
  · cases h
  · simp only [Option.orElse_eq_orElse, Option.orElse_eq_or, Option.or_eq_some_iff,
      Option.map_eq_some_iff] at h
    obtain ⟨id, -, rfl⟩ | ⟨-, ⟨id, -, rfl⟩ | ⟨-, ⟨id, score⟩, -, rfl⟩⟩ := h <;> rfl

theorem resolve_of_path {d : Document} {l : Locator} {text : String} (hl : l.xpath = some text)
    {path : XPath.Path} (hparse : XPath.parse text = .ok path) {id : Nat}
    (hfirst : path.firstElement? d = some id) :
    l.resolve d = some ⟨id, d.summary id, .xpath, .full⟩ := by
  have hne : l.isEmpty = false := by simp [isEmpty, hl]
  have hfind : l.findByPath d = some id := by simp [findByPath, hl, hparse, Except.toOption, hfirst]
  simp [resolve, hne, hfind]

theorem xpath_of_trimmed {l : Locator} {text : String} (hl : l.xpathField = some text)
    (htrim : Text.trim text.toList = text.toList) (hne : text ≠ "") : l.xpath = some text := by
  have htrimmed : Text.trimmed text = text := by rw [Text.trimmed, htrim, String.ofList_toList]
  simp [xpath, present, hl, htrimmed, hne]

/-- The path of an element is read, and leads to that element alone. A locator that is refreshed
from what was found there finds the element again, by its path. No text in memory has as many as
`UInt64.size` bytes. -/
theorem path_points_back {content : String} {d : Document}
    (hparse : Document.parse? content = some d) (hsize : content.utf8ByteSize < UInt64.size)
    {id : Nat} (hid : id < d.size) (hnamed : d.Named id) :
    (∃ path, XPath.parse (d.path id) = .ok path ∧ path.evaluate d = [.element id]) ∧
    ∀ (l : Locator) (r : Resolved), l.resolve d = some r → r.node = id →
      ∃ r', (ofResolved r).resolve d = some r' ∧ r'.node = r.node ∧ r'.tier = .xpath := by
  obtain ⟨hd, -, hcount⟩ := Document.isTree_of_parse hparse
  have hbound : d.size < UInt64.size :=
    Nat.lt_of_le_of_lt (Nat.le_trans hcount (Text.length_le_utf8ByteSize content)) hsize
  have hread := XPath.parse_path hd hnamed hbound
  have hevaluate := XPath.evaluate_lineage hd hid true
  refine ⟨⟨_, hread, hevaluate⟩, fun l r hr hnode => ?_⟩
  have hxpath : (ofResolved r).xpath = some (d.path id) := by
    refine xpath_of_trimmed ?_ (XPath.trim_path hd hnamed) (by simp [Document.path])
    rw [ofResolved, element_of_resolve hr, hnode]
    rfl
  have hfirst : XPath.Path.firstElement? d ⟨true, (d.lineage id).map (XPath.Step.to d)⟩ =
      some id := by
    rw [XPath.Path.firstElement?, hevaluate]
    rfl
  exact ⟨_, resolve_of_path hxpath hread hfirst, hnode.symm, rfl⟩

def twins : Document where
  elements :=
    #[{ name := "hierarchy", attributes := [], parent := none, children := #[1, 2], depth := 0 },
      { name := "node", attributes := [⟨"text", "a"⟩], parent := some 0, depth := 1 },
      { name := "node", attributes := [⟨"text", "a"⟩], parent := some 0, depth := 1 }]

theorem path_points_back_twins :
    Document.parse? "<hierarchy><node text=\"a\"/><node text='a'/></hierarchy>" = some twins ∧
      twins.path 2 = "/hierarchy/node[2]" ∧
      (∃ path, XPath.parse (twins.path 2) = .ok path ∧ path.evaluate twins = [.element 2]) ∧
      ∃ r, Locator.resolve twins { xpathField := some "//node[@text='a'][2]" } = some r ∧
        r.node = 2 ∧ ∃ r', (ofResolved r).resolve twins = some r' ∧ r'.node = 2 := by
  have hparse : Document.parse? "<hierarchy><node text=\"a\"/><node text='a'/></hierarchy>" =
      some twins := by decide +kernel
  have hnamed : twins.Named 2 := by
    rintro a (_ | ⟨hp, h⟩)
    · exact ⟨by decide, by decide, by decide⟩
    · cases hp
      obtain _ | ⟨hp, -⟩ := h
      · exact ⟨by decide, by decide, by decide⟩
      · cases hp
  obtain ⟨hpath, hresolve⟩ := path_points_back hparse (by decide +kernel) (by decide) hnamed
  obtain ⟨r, hr, hnode⟩ : ∃ r, Locator.resolve twins
      { xpathField := some "//node[@text='a'][2]" } = some r ∧ r.node = 2 :=
    ⟨⟨2, twins.summary 2, .xpath, .full⟩, by decide +kernel, rfl⟩
  obtain ⟨r', hr', hnode', -⟩ := hresolve _ r hr hnode
  exact ⟨hparse, by decide +kernel, hpath, r, hr, hnode, r', hr', hnode'.trans hnode⟩

end Locator

end Replay
