import Replay.Proofs.XPath.Evaluation
import Replay.Proofs.Text.Reading
set_option autoImplicit false

/-!
What a location path means, said without any order of evaluation: a step leads from a node to nodes
(`Step.Selects`), a predicate looks at the place of an element among those that are left
(`Predicate.survivors`), and a path selects what its steps lead to one after another (`Selects`).
-/

namespace Replay

namespace Text

theorem startsWith_iff {lead s : List Char} : startsWith lead s = true ↔ lead <+: s := by
  rw [startsWith, Option.isSome_iff_exists]
  constructor
  · rintro ⟨rest, hrest⟩
    exact ⟨rest, (stripStart?_eq_some.mp hrest).symm⟩
  · rintro ⟨rest, hrest⟩
    exact ⟨rest, stripStart?_eq_some.mpr hrest.symm⟩

theorem occursIn_iff {part s : List Char} : occursIn part s = true ↔ part <:+: s := by
  induction s with
  | nil => simp [occursIn]
  | cons c s ih => rw [occursIn, Bool.or_eq_true, startsWith_iff, ih, List.infix_cons_iff]

end Text

namespace XPath

open Xml (Document)

inductive Node where
  | document
  | element (id : Nat)
  deriving DecidableEq, Repr

def Node.children (d : Document) : Node → List Nat
  | .document => [0]
  | .element id => d.children id

inductive Node.Below (d : Document) (n : Node) : Node → Prop where
  | self : Below d n n
  | child {m : Node} {id : Nat} (h : Below d n m) (hid : id ∈ m.children d) :
      Below d n (.element id)

/-- The nodes at which a step starts, for one node of the context. -/
def Axis.Reaches (d : Document) : Axis → Node → Node → Prop
  | .child, c, n => n = c
  | .descendant, c, n => c.Below d n

def Condition.Met (d : Document) (id : Nat) : Condition → Prop
  | .present a => ∃ x, d.attribute? id a = some x
  | .equals a v => d.attribute? id a = some v
  | .contains a v => ∃ x, d.attribute? id a = some x ∧ v.toList <:+: x.toList
  | .startsWith a v => ∃ x, d.attribute? id a = some x ∧ v.toList <+: x.toList

theorem Condition.holds_iff {d : Document} {id : Nat} {c : Condition} :
    c.holds d id = true ↔ c.Met d id := by
  cases c with
  | present a => simp [holds, Met, Option.isSome_iff_exists]
  | equals a v => simp [holds, Met]
  | contains a v => simp [holds, Met, Option.any_eq_true, Text.occursIn_iff]
  | startsWith a v => simp [holds, Met, Option.any_eq_true, Text.startsWith_iff]

/-- A predicate is true of an element at a place, counted from one, of so many. -/
def Predicate.Holds (d : Document) (place size id : Nat) : Predicate → Prop
  | .position n => place = n
  | .last => place = size
  | .all conditions => ∀ c ∈ conditions, c.Met d id

instance (d : Document) (id : Nat) (c : Condition) : Decidable (c.Met d id) :=
  decidable_of_iff _ Condition.holds_iff

instance (d : Document) (place size id : Nat) : (p : Predicate) → Decidable (p.Holds d place size id)
  | .position n => inferInstanceAs (Decidable (place = n))
  | .last => inferInstanceAs (Decidable (place = size))
  | .all conditions => inferInstanceAs (Decidable (∀ c ∈ conditions, c.Met d id))

/-- The elements of a list of which the predicate is true, each at its own place. -/
def Predicate.survivors (d : Document) (nodes : List Nat) (p : Predicate) : List Nat :=
  (nodes.zipIdx 1).filterMap fun e => if p.Holds d e.2 nodes.length e.1 then some e.1 else none

theorem filterMap_zipIdx_place (nodes : List Nat) (first n : Nat) :
    ((nodes.zipIdx first).filterMap fun e => if e.2 = n then some e.1 else none) =
      if first ≤ n then nodes[n - first]?.toList else [] := by
  induction nodes generalizing first with
  | nil => simp
  | cons id nodes ih =>
    rw [List.zipIdx_cons, List.filterMap_cons, ih]
    obtain hlt | rfl | hgt := Nat.lt_trichotomy first n
    · have hsucc : n - first = n - (first + 1) + 1 := by omega
      simp [Nat.ne_of_lt hlt, Nat.le_of_lt hlt, Nat.succ_le_of_lt hlt, hsucc]
    · rw [if_neg (Nat.not_succ_le_self first)]
      simp
    · simp [Nat.ne_of_gt hgt, Nat.not_le.mpr hgt, Nat.not_le.mpr (Nat.lt_succ_of_lt hgt)]

theorem filterMap_zipIdx_all (d : Document) (conditions : List Condition) (nodes : List Nat)
    (first : Nat) : ((nodes.zipIdx first).filterMap fun e =>
      if ∀ c ∈ conditions, c.Met d e.1 then some e.1 else none) =
        nodes.filter fun id => conditions.all (·.holds d id) := by
  induction nodes generalizing first with
  | nil => rfl
  | cons id nodes ih =>
    have hall : (conditions.all (·.holds d id) = true) ↔ ∀ c ∈ conditions, c.Met d id := by
      simp only [List.all_eq_true, Condition.holds_iff]
    rw [List.zipIdx_cons, List.filterMap_cons, ih, List.filter_cons]
    by_cases hmet : ∀ c ∈ conditions, c.Met d id
    · simp only [if_pos hmet, if_pos (hall.mpr hmet)]
    · simp only [if_neg hmet, if_neg (mt hall.mp hmet)]

theorem Predicate.filter_eq_survivors (d : Document) (nodes : List Nat) {p : Predicate}
    (hp : p ≠ .position 0) : p.filter d nodes = p.survivors d nodes := by
  cases p with
  | position n =>
    have hpos : 1 ≤ n := Nat.one_le_iff_ne_zero.mpr fun h => hp (by rw [h])
    have hplace := filterMap_zipIdx_place nodes 1 n
    rw [if_pos hpos] at hplace
    exact hplace.symm
  | last =>
    have hplace := filterMap_zipIdx_place nodes 1 nodes.length
    rw [← List.getLast?_eq_getElem?] at hplace
    cases nodes with
    | nil => rfl
    | cons id nodes => exact hplace.symm
  | all conditions => exact (filterMap_zipIdx_all d conditions nodes 1).symm

/-- The children of one node that pass the test, and of these the ones that each predicate in turn
leaves. -/
def Step.chosen (d : Document) (step : Step) (parent : Node) : List Nat :=
  step.predicates.foldl (Predicate.survivors d)
    ((parent.children d).filter fun id => step.test.accepts d id)

/-- The nodes that a step leads to from the nodes of a context. Attributes and character data are
no nodes from which another step can start. -/
def Step.Selects (d : Document) (step : Step) (context : Node → Prop) (n : Node) : Prop :=
  match step.test with
  | .name _ | .any => ∃ c parent id, context c ∧ step.axis.Reaches d c parent ∧
      id ∈ step.chosen d parent ∧ n = .element id
  | .self => ∃ c, context c ∧ step.axis.Reaches d c n
  | .attr _ | .text => False

inductive NodeTest.Yields (d : Document) (id : Nat) : NodeTest → Hit → Prop where
  | attr {name : String} (h : (d.attribute? id name).isSome) :
      Yields d id (.attr name) (.attr id name)
  | text (h : d.hasText id) : Yields d id .text (.text id)

/-- What a path selects from the nodes of a context. -/
inductive Selects (d : Document) : List Step → (Node → Prop) → Hit → Prop where
  | element {context : Node → Prop} {id : Nat} (h : context (.element id)) :
      Selects d [] context (.element id)
  | owned {step : Step} {context : Node → Prop} {c : Node} {id : Nat} {hit : Hit} (hc : context c)
      (hreach : step.axis.Reaches d c (.element id)) (h : step.test.Yields d id hit) :
      Selects d [step] context hit
  | step {step : Step} {rest : List Step} {context : Node → Prop} {hit : Hit}
      (h : Selects d rest (step.Selects d context) hit) : Selects d (step :: rest) context hit

theorem selects_cons_iff {d : Document} {step : Step} {rest : List Step} {context : Node → Prop}
    {hit : Hit} : Selects d (step :: rest) context hit ↔
      (rest = [] ∧ ∃ c id, context c ∧ step.axis.Reaches d c (.element id) ∧
        step.test.Yields d id hit) ∨ Selects d rest (step.Selects d context) hit := by
  constructor
  · rintro (_ | ⟨hc, hreach, h⟩ | h)
    · exact Or.inl ⟨rfl, _, _, hc, hreach, h⟩
    · exact Or.inr h
  · rintro (⟨rfl, c, id, hc, hreach, h⟩ | h)
    · exact .owned hc hreach h
    · exact .step h

theorem not_selects_of_empty {d : Document} {steps : List Step} {context : Node → Prop} {hit : Hit}
    (hempty : ∀ n, ¬ context n) : ¬ Selects d steps context hit := by
  intro h
  induction h with
  | element h => exact hempty _ h
  | owned hc => exact hempty _ hc
  | @step step _ context _ _ ih =>
    refine ih fun n hn => ?_
    unfold Step.Selects at hn
    split at hn
    · obtain ⟨c, -, -, hc, -⟩ := hn
      exact hempty c hc
    · obtain ⟨c, -, -, hc, -⟩ := hn
      exact hempty c hc
    · obtain ⟨c, hc, -⟩ := hn
      exact hempty c hc
    · exact hn
    · exact hn

end XPath

end Replay
