import Replay.Rect
import Replay.Xml.Attribute
set_option autoImplicit false

/-!
Parsed hierarchies. A document is the array of its elements in document order; an element knows
the number of its parent and the numbers of its children. `Document.parse` builds it from the
markup of a text, one construct at a time (`Builder.accept`).
-/

namespace Replay.Xml

structure Element where
  name : String
  attributes : List Attribute
  parent : Option Nat
  children : Array Nat := #[]
  depth : Nat
  hasText : Bool := false
  deriving DecidableEq, Repr, Inhabited

structure Document where
  elements : Array Element
  deriving DecidableEq, Repr

inductive Fault where
  | illFormed
  | multipleRoots
  deriving DecidableEq, Repr

def Fault.message : Fault → String
  | .illFormed => "ill-formed markup"
  | .multipleRoots => "multiple root elements"

inductive ParseError where
  | empty
  /-- With the offset, in bytes, at which the construct before the faulty one ended. -/
  | malformed (position : Nat) (fault : Fault)
  | unclosed (name : String)
  | noRoot
  deriving DecidableEq, Repr

def ParseError.message : ParseError → String
  | .empty => "xml content is empty"
  | .malformed position fault => s!"malformed xml at byte {position}: {fault.message}"
  | .unclosed name => s!"unclosed element <{name}> at end of document"
  | .noRoot => "document has no root element"

structure Builder where
  elements : Array Element := #[]
  unclosed : List Nat := []
  deriving DecidableEq, Repr

namespace Builder

def nameOf (b : Builder) (id : Nat) : String := (b.elements.getD id default).name

def add (b : Builder) (after : Nat) (name attributes : List Char) : Except ParseError Builder :=
  match b.unclosed.head?, b.elements.isEmpty with
  | none, false => .error (.malformed after .multipleRoots)
  | parent, _ =>
    match Attribute.read? attributes with
    | none => .error (.malformed after .illFormed)
    | some attributes =>
      let id := b.elements.size
      let link (e : Element) : Element := { e with children := e.children.push id }
      let elements := parent.elim b.elements fun p => b.elements.modify p link
      let depth := b.unclosed.length
      .ok { b with
        elements := elements.push
          { name := String.ofList name, attributes, parent, depth } }

def enterLast (b : Builder) : Builder := { b with unclosed := (b.elements.size - 1) :: b.unclosed }

def markText : Builder → Builder
  | ⟨elements, id :: outer⟩ => ⟨elements.modify id ({ · with hasText := true }), id :: outer⟩
  | b => b

/-- Take one construct. An end tag has to name the innermost open element. -/
def accept (b : Builder) (p : Placed) : Except ParseError Builder :=
  match p.markup with
  | .opening name attributes => (b.add p.after name attributes).map enterLast
  | .void name attributes => b.add p.after name attributes
  | .closing name =>
    match b.unclosed with
    | id :: outer =>
      if b.nameOf id = String.ofList name then .ok { b with unclosed := outer }
      else .error (.malformed p.after .illFormed)
    | [] => .error (.malformed p.after .illFormed)
  | .characters => .ok b.markText

def finish (b : Builder) : Except ParseError Document :=
  match b.unclosed with
  | id :: _ => .error (.unclosed (b.nameOf id))
  | [] => if b.elements.isEmpty then .error .noRoot else .ok ⟨b.elements⟩

end Builder

namespace Document

def parseChars (text : List Char) : Except ParseError Document := do
  if text.all Text.isBlank then throw .empty
  let scanned := scan text
  let b ← scanned.markup.foldlM Builder.accept {}
  if !scanned.atRest then throw (.malformed scanned.mark .illFormed)
  b.finish

def parse (content : String) : Except ParseError Document := parseChars content.toList

def parse? (content : String) : Option Document := (parse content).toOption

def size (d : Document) : Nat := d.elements.size

def ids (d : Document) : List Nat := List.range d.size

def element (d : Document) (id : Nat) : Element := d.elements.getD id default

def name (d : Document) (id : Nat) : String := (d.element id).name

def parent? (d : Document) (id : Nat) : Option Nat := (d.element id).parent

def children (d : Document) (id : Nat) : List Nat := (d.element id).children.toList

def hasText (d : Document) (id : Nat) : Bool := (d.element id).hasText

def attribute? (d : Document) (id : Nat) (key : String) : Option String :=
  ((d.element id).attributes.find? (·.key == key)).map (·.value)

def hasHierarchyMarkers (d : Document) : Bool :=
  d.elements.any fun e => e.name == "hierarchy" || e.name == "node"

def bounds? (d : Document) (id : Nat) : Option Rect := d.attribute? id "bounds" >>= Rect.parse?

/-- Position among the siblings of the same name, counted from one. -/
def position (d : Document) (id : Nat) : Nat :=
  match d.parent? id with
  | none => 1
  | some p => ((d.children p).filter fun c => d.name c == d.name id).idxOf id + 1

def segments (d : Document) (id : Nat) : List String :=
  match d.parent? id with
  | none => [d.name id]
  | some p => (if p < id then d.segments p else []) ++ [s!"{d.name id}[{d.position id}]"]
termination_by id

/-- The absolute path of an element, such as `/hierarchy/node[1]/node[3]`. -/
def path (d : Document) (id : Nat) : String := "/" ++ "/".intercalate (d.segments id)

end Document

structure Summary where
  path : String
  className : Option String
  resourceId : Option String
  text : Option String
  contentDesc : Option String
  bounds : Option Rect
  clickable : Bool
  deriving DecidableEq, Repr

namespace Document

def nonEmpty? (d : Document) (id : Nat) (key : String) : Option String :=
  (d.attribute? id key).filter (!·.isEmpty)

def summary (d : Document) (id : Nat) : Summary where
  path := d.path id
  className := d.nonEmpty? id "class"
  resourceId := d.nonEmpty? id "resource-id"
  text := d.nonEmpty? id "text"
  contentDesc := d.nonEmpty? id "content-desc"
  bounds := d.bounds? id
  clickable := d.attribute? id "clickable" == some "true"

def nodeSummaries (d : Document) : List Summary :=
  (d.ids.filter fun id => d.name id == "node").map d.summary

def extract (content : String) : List Summary :=
  ((parse? content).map nodeSummaries).getD []

end Document

end Replay.Xml
