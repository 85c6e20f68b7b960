import Replay.Script
import Replay.XPath.Eval
import Replay.XPath.Reader
set_option autoImplicit false

/-!
Finding the element that a locator describes. Three tiers are tried in turn: the path, the exact
bounds, and the share of attributes that agree. A tier that finds an element ends the search.
-/

namespace Replay.Locator

open Xml (Document Summary)

inductive Tier where
  | xpath
  | bounds
  | attributes
  deriving DecidableEq, Repr

def Tier.name : Tier → String
  | .xpath => "x_path"
  | .bounds => "bounds"
  | .attributes => "attributes"

structure Score where
  matched : Nat
  compared : Nat
  deriving DecidableEq, Repr

namespace Score

def full : Score := ⟨1, 1⟩

def accepted (s : Score) : Bool := s.compared ≤ 2 * s.matched

def toFloat (s : Score) : Float := s.matched.toFloat / s.compared.toFloat

end Score

structure Resolved where
  node : Nat
  element : Summary
  tier : Tier
  score : Score
  deriving DecidableEq, Repr

def wanted (l : Locator) : List (String × String) :=
  [("resource-id", l.resourceId), ("text", l.text), ("content-desc", l.contentDesc),
    ("class", l.className)].filterMap fun (key, value) => value.map fun v => (key, v)

/-- The share of the wanted attributes that an element has; none if no attribute is wanted. -/
def attributeScore (d : Document) (l : Locator) (id : Nat) : Option Score :=
  let pairs := l.wanted
  if pairs.isEmpty then none
  else some ⟨pairs.countP fun (key, value) => d.attribute? id key == some value, pairs.length⟩

def findByPath (d : Document) (l : Locator) : Option Nat := do
  let path ← (XPath.parse (← l.xpath)).toOption
  path.firstElement? d

/-- The first element whose bounds are written as those of the locator; blanks around them do not
count. -/
def findByBounds (d : Document) (l : Locator) : Option Nat := do
  let text := (← l.bounds).render
  d.ids.find? fun id => (d.attribute? id "bounds").map Text.trimmed == some text

def findByAttributes (d : Document) (l : Locator) : Option (Nat × Score) :=
  d.ids.findSome? fun id =>
    ((attributeScore d l id).filter Score.accepted).map fun score => (id, score)

def resolve (d : Document) (l : Locator) : Option Resolved :=
  let found (id : Nat) (tier : Tier) (score : Score) : Resolved := ⟨id, d.summary id, tier, score⟩
  if l.isEmpty then none
  else
    (l.findByPath d).map (found · .xpath .full) <|>
      (l.findByBounds d).map (found · .bounds .full) <|>
      (l.findByAttributes d).map fun (id, score) => found id .attributes score

def resolveIn (content : String) (l : Locator) : Option Resolved :=
  Document.parse? content >>= fun d => l.resolve d

def ofResolved (r : Resolved) : Locator where
  xpathField := some r.element.path
  resourceIdField := r.element.resourceId
  textField := r.element.text
  contentDescField := r.element.contentDesc
  classNameField := r.element.className
  bounds := r.element.bounds

end Replay.Locator
