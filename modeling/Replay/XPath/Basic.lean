set_option autoImplicit false

/-!
The subset of XPath that locates elements: steps along the child axis or `//`, name tests, `*`,
`.`, positions, conditions on attributes, and a last step to an attribute or to character data.
-/

namespace Replay.XPath

inductive Axis where
  | child
  | descendant
  deriving DecidableEq, Repr

inductive NodeTest where
  | name (name : String)
  | any
  | self
  | attr (name : String)
  | text
  deriving DecidableEq, Repr

inductive Condition where
  | present (key : String)
  | equals (key value : String)
  | contains (key value : String)
  | startsWith (key value : String)
  deriving DecidableEq, Repr

inductive Predicate where
  | position (n : Nat)
  | last
  | all (conditions : List Condition)
  deriving DecidableEq, Repr

structure Step where
  axis : Axis
  test : NodeTest
  predicates : List Predicate
  deriving DecidableEq, Repr

structure Path where
  absolute : Bool
  steps : List Step
  deriving DecidableEq, Repr

inductive Expectation where
  | separator
  | stepAfterSeparator
  | attributeName
  | nodeTest
  | endOfPredicate
  deriving DecidableEq, Repr

def Expectation.message : Expectation → String
  | .separator => "expected '/'"
  | .stepAfterSeparator => "path ends with a separator"
  | .attributeName => "expected attribute name"
  | .nodeTest => "expected node test"
  | .endOfPredicate => "unterminated predicate"

inductive Error where
  | empty
  /-- With the offset in bytes into the trimmed expression. -/
  | misread (offset : Nat) (expectation : Expectation)
  | unsupported (construct : String)
  deriving DecidableEq, Repr

def Error.message : Error → String
  | .empty => "empty xpath expression"
  | .misread offset e => s!"xpath syntax error at offset {offset}: {e.message}"
  | .unsupported construct => s!"unsupported xpath construct: {construct}"

end Replay.XPath
