import Replay.Text.Basic
import Replay.Xml.Document
import Replay.XPath.Basic
set_option autoImplicit false

/-!
Evaluation of location paths on a document. A step maps a set of nodes to a set of nodes, kept in
document order; predicates act on the matching children of one parent at a time.
-/

namespace Replay.Xml.Document

def inOrder (d : Document) (picked : List Nat) : List Nat :=
  let marks := picked.foldl (fun m id => m.setIfInBounds id true) (Array.replicate d.size false)
  d.ids.filter fun id => marks.getD id false

/-- Which elements, by number, are in `start` or below one of it. Parents come before their
children, so that one pass is enough. -/
def reachMarks (d : Document) (start : List Nat) : Array Bool :=
  let marks := start.foldl (fun m id => m.setIfInBounds id true) (Array.replicate d.size false)
  d.ids.foldl (fun reached id =>
    reached.push (marks.getD id false || (d.parent? id).any fun p => reached.getD p false)) #[]

def descendantsOrSelf (d : Document) (start : List Nat) : List Nat :=
  let reached := d.reachMarks start
  d.ids.filter fun id => reached.getD id false

end Replay.Xml.Document

namespace Replay.XPath

open Xml (Document)

structure NodeSet where
  document : Bool
  elements : List Nat
  deriving DecidableEq, Repr

inductive Hit where
  | element (id : Nat)
  | attr (owner : Nat) (name : String)
  | text (owner : Nat)
  deriving DecidableEq, Repr

def Hit.owner : Hit → Nat
  | .element id => id
  | .attr owner _ => owner
  | .text owner => owner

def Condition.holds (d : Document) (id : Nat) : Condition → Bool
  | .present a => (d.attribute? id a).isSome
  | .equals a v => d.attribute? id a == some v
  | .contains a v => (d.attribute? id a).any fun x => Text.occursIn v.toList x.toList
  | .startsWith a v => (d.attribute? id a).any fun x => Text.startsWith v.toList x.toList

def Predicate.filter (d : Document) (nodes : List Nat) : Predicate → List Nat
  | .position n => nodes[n - 1]?.toList
  | .last => nodes.getLast?.toList
  | .all conditions => nodes.filter fun id => conditions.all (·.holds d id)

def NodeTest.accepts (d : Document) (id : Nat) : NodeTest → Bool
  | .name n => d.name id == n
  | .any => true
  | _ => false

def Step.ofSiblings (d : Document) (step : Step) (siblings : List Nat) : List Nat :=
  step.predicates.foldl (Predicate.filter d) (siblings.filter fun id => step.test.accepts d id)

def Axis.origins (d : Document) (axis : Axis) (context : NodeSet) : NodeSet :=
  match axis with
  | .child => context
  | .descendant =>
    ⟨context.document, if context.document then d.ids else d.descendantsOrSelf context.elements⟩

/-- The elements that a step to child elements selects. The document node has the root as its only
child. -/
def Step.select (d : Document) (step : Step) (context : NodeSet) : List Nat :=
  let origins := step.axis.origins d context
  let ofDocument := if origins.document then step.ofSiblings d [0] else []
  d.inOrder (ofDocument ++ origins.elements.flatMap fun p => step.ofSiblings d (d.children p))

/-- Follow the steps. A step to an attribute or to character data has to be the last one, and it
and `.` take no account of predicates. -/
def follow (d : Document) : List Step → NodeSet → List Hit
  | [], context => context.elements.map .element
  | step :: rest, context =>
    match step.test with
    | .attr name =>
      if rest.isEmpty then
        ((step.axis.origins d context).elements.filter fun id => (d.attribute? id name).isSome).map
          fun id => .attr id name
      else []
    | .text =>
      if rest.isEmpty then ((step.axis.origins d context).elements.filter d.hasText).map .text
      else []
    | .self => follow d rest (step.axis.origins d context)
    | .name _ | .any => follow d rest ⟨false, step.select d context⟩

def Path.evaluate (d : Document) (path : Path) : List Hit := follow d path.steps ⟨true, []⟩

def Path.firstElement? (d : Document) (path : Path) : Option Nat :=
  (path.evaluate d).head?.map Hit.owner

end Replay.XPath
