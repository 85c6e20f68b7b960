import Replay.Ordered
set_option autoImplicit false

/-!
JSON values. The members of an object keep the order in which they are listed; objects that were
read are in ascending order of their keys.
-/

namespace Replay

/-- Integers of 64 bits stay integers; every other number is a floating-point number. -/
inductive Number where
  | integer (n : Int)
  | real (x : Float)
  deriving BEq, Repr, Inhabited

inductive Json where
  | null
  | bool (b : Bool)
  | number (n : Number)
  | string (s : String)
  | array (items : List Json)
  | object (members : List (String × Json))
  deriving BEq, Repr, Inhabited

namespace Json

abbrev Members := Ordered.Map String Json

def integer (n : Int) : Json := .number (.integer n)

def nat (n : Nat) : Json := .integer n

def get? (key : String) : Json → Option Json
  | .object members => Ordered.get? key members
  | _ => none

mutual

def sorted : Json → Json
  | .array items => .array (sortedItems items)
  | .object members => .object (Ordered.ofList (sortedMembers members))
  | j => j

def sortedItems : List Json → List Json
  | [] => []
  | x :: xs => x.sorted :: sortedItems xs

def sortedMembers : List (String × Json) → List (String × Json)
  | [] => []
  | (k, x) :: rest => (k, x.sorted) :: sortedMembers rest

end

end Json

end Replay
