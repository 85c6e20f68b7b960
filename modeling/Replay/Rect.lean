import Replay.Text.Basic
set_option autoImplicit false

namespace Replay

structure Rect where
  left : Int32
  top : Int32
  right : Int32
  bottom : Int32
  deriving DecidableEq, Repr

namespace Rect

def render (r : Rect) : String :=
  s!"[{r.left.toInt},{r.top.toInt}][{r.right.toInt},{r.bottom.toInt}]"

def readPair? (s : List Char) : Option (Int32 × Int32) := do
  let (a, b) ← Text.splitOnce? [','] s
  let x ← Text.readInt32? (Text.trim a)
  let y ← Text.readInt32? (Text.trim b)
  return (x, y)

def read? (s : List Char) : Option Rect := do
  let s ← Text.stripStart? ['['] (Text.trim s)
  let s ← Text.stripEnd? [']'] s
  let (first, second) ← Text.splitOnce? [']', '['] s
  let (left, top) ← readPair? first
  let (right, bottom) ← readPair? second
  return ⟨left, top, right, bottom⟩

def parse? (s : String) : Option Rect := read? s.toList

def invalidMessage (s : String) : String := "invalid bounds: " ++ s

/-- The pixel between two, cut toward zero, unless their sum leaves the range of 32 bits. -/
def middle? (a b : Int32) : Option Int32 :=
  let sum := a.toInt + b.toInt
  if -0x80000000 ≤ sum ∧ sum < 0x80000000 then some (Int32.ofInt sum / 2) else none

def center? (r : Rect) : Option (Int32 × Int32) := do
  return (← middle? r.left r.right, ← middle? r.top r.bottom)

def map (horizontal vertical : Int32 → Int32) (r : Rect) : Rect :=
  ⟨horizontal r.left, vertical r.top, horizontal r.right, vertical r.bottom⟩

/-- A coordinate times a factor, to the nearest pixel, halves away from zero; what leaves the
range of 32 bits becomes its nearest end. -/
def scaleCoordinate (factor : Float) (v : Int32) : Int32 := (v.toFloat * factor).round.toInt32

def scaled (sx sy : Float) : Rect → Rect := map (scaleCoordinate sx) (scaleCoordinate sy)

end Rect

end Replay
