import Replay.Rect
import Replay.Text.CharClass
set_option autoImplicit false

/-!
Rewriting the bounds in the text of a hierarchy. Wherever `bounds="[l,t][r,b]"` stands, the
rectangle is mapped; all other text stays.
-/

namespace Replay.Xml.Rescale

def skipCoordinate? (s : List Char) : Option (List Char) :=
  let digits := match s with
    | '-' :: s => s
    | s => s
  if (digits.takeWhile Char.isDigit).isEmpty then none else some (digits.dropWhile Char.isDigit)

def skipCorner? (s : List Char) : Option (List Char) :=
  Text.stripStart? ['['] s >>= skipCoordinate? >>= Text.stripStart? [','] >>= skipCoordinate? >>=
    Text.stripStart? [']']

def attributeStart : List Char := ['b', 'o', 'u', 'n', 'd', 's', '=', '"']

def splitBounds? (s : List Char) : Option (List Char × List Char) := do
  let value ← Text.stripStart? attributeStart s
  let rest ← skipCorner? value >>= skipCorner? >>= Text.stripStart? ['"']
  return (value.takeWhile (· != '"'), rest)

/-- Put a character in front of a text that is done already. If a bounds attribute starts
there, its rectangle is mapped; one that is out of range stays. -/
def putChar (change : Rect → Rect) (c : Char) (rest : List Char) : List Char :=
  match splitBounds? (c :: rest) with
  | some (value, after) =>
    match Rect.read? value with
    | some r => attributeStart ++ (change r).render.toList ++ '"' :: after
    | none => c :: rest
  | none => c :: rest

def mapBoundsChars (change : Rect → Rect) (s : List Char) : List Char :=
  s.foldr (putChar change) []

def mapBounds (change : Rect → Rect) (content : String) : String :=
  String.ofList (mapBoundsChars change content.toList)

end Replay.Xml.Rescale
