import Replay.Xml.Document
set_option autoImplicit false

/-!
Repair of damaged dumps before they are parsed. Four changes of the text run in a fixed order
(`RepairStep.all`); each is recorded only if it changed the text. The result need not parse.
-/

namespace Replay.Xml

inductive RepairStep where
  | trimSurroundingNoise
  | escapeBareAmpersands
  | closeUnclosedElements
  | prependDeclaration
  deriving DecidableEq, Repr

namespace RepairStep

def name : RepairStep → String
  | trimSurroundingNoise => "trim_surrounding_noise"
  | escapeBareAmpersands => "escape_bare_ampersands"
  | closeUnclosedElements => "close_unclosed_elements"
  | prependDeclaration => "prepend_declaration"

def describe : RepairStep → String
  | trimSurroundingNoise => "removed text outside the document"
  | escapeBareAmpersands => "escaped bare '&' characters"
  | closeUnclosedElements => "closed unterminated elements"
  | prependDeclaration => "added XML declaration"

def all : List RepairStep :=
  [trimSurroundingNoise, escapeBareAmpersands, closeUnclosedElements, prependDeclaration]

end RepairStep

namespace Repair

/-- The span from the first `<` to the last `>` after it; the text itself if there is none. -/
def trimNoise (s : List Char) : List Char :=
  let span := ((s.dropWhile (· != '<')).reverse.dropWhile (· != '>')).reverse
  if span.isEmpty then s else span

def isHexDigit (c : Char) : Bool := (Entity.hexValue? c).isSome

def closesAfter (p : Char → Bool) (s : List Char) : Bool :=
  !(s.takeWhile p).isEmpty && (s.dropWhile p).head? == some ';'

/-- A text that completes an ampersand to something shaped like a reference. -/
def isReference : List Char → Bool
  | '#' :: 'x' :: s => closesAfter isHexDigit s
  | '#' :: s => closesAfter Char.isDigit s
  | c :: s => c.isAlpha && (s.dropWhile Char.isAlphanum).head? == some ';'
  | [] => false

def putAmpersand (c : Char) (rest : List Char) : List Char :=
  if c = '&' ∧ !isReference rest then '&' :: 'a' :: 'm' :: 'p' :: ';' :: rest else c :: rest

def escapeAmpersands (s : List Char) : List Char := s.foldr putAmpersand []

/-- The names of the open elements, innermost first, after one more construct; none when an end
tag does not match. -/
def track (unclosed : List (List Char)) : Markup → Option (List (List Char))
  | .opening name _ => some (name :: unclosed)
  | .closing name =>
    match unclosed with
    | inner :: outer => if inner = name then some outer else none
    | [] => none
  | .void .. | .characters => some unclosed

/-- The elements that a text leaves open, innermost first; none when more than end tags is
missing. -/
def unclosedNames? (s : List Char) : Option (List (List Char)) :=
  let scanned := scan s
  if scanned.atRest then scanned.markup.foldlM (fun names p => track names p.markup) [] else none

def endTag (name : List Char) : List Char := '<' :: '/' :: (name ++ ['>'])

def closeElements (s : List Char) : List Char :=
  s ++ ((unclosedNames? s).getD []).flatMap endTag

def declaration : String := "<?xml version=\"1.0\" encoding=\"UTF-8\"?>"

def declare (s : List Char) : List Char :=
  if Text.startsWith "<?xml".toList (Text.trimStart s) then s
  else declaration.toList ++ '\n' :: s

def apply : RepairStep → List Char → List Char
  | .trimSurroundingNoise => trimNoise
  | .escapeBareAmpersands => escapeAmpersands
  | .closeUnclosedElements => closeElements
  | .prependDeclaration => declare

def advance (state : List Char × List RepairStep) (step : RepairStep) :
    List Char × List RepairStep :=
  let next := apply step state.1
  if next = state.1 then state else (next, state.2 ++ [step])

def repairChars (s : List Char) : List Char × List RepairStep :=
  RepairStep.all.foldl advance (s, [])

end Repair

structure RepairOutcome where
  content : String
  applied : List RepairStep
  deriving DecidableEq, Repr

def RepairOutcome.changed (o : RepairOutcome) : Bool := !o.applied.isEmpty

def repair (content : String) : RepairOutcome :=
  let (s, applied) := Repair.repairChars content.toList
  ⟨String.ofList s, applied⟩

end Replay.Xml
