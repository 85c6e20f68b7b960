import Replay.Text.Basic
import Replay.XPath.Basic
set_option autoImplicit false

/-!
Reading location paths. Every reader takes the text that is left and returns what it read and the
text after it; a failure keeps the text at which it arose, from which its offset follows.
-/

namespace Replay.XPath.Reader

inductive Failure where
  | misread (rest : List Char) (expectation : Expectation)
  | unsupported (construct : List Char)
  deriving DecidableEq, Repr

def isNameChar (c : Char) : Bool :=
  Text.isAlphanumeric c || c == '-' || c == '_' || c == '.' || c == ':'

def name (s : List Char) : List Char × List Char := (s.takeWhile isNameChar, s.dropWhile isNameChar)

def attributeTest (s : List Char) : Except Failure (NodeTest × List Char) :=
  let (n, rest) := name s
  if n.isEmpty then .error (.misread s .attributeName)
  else .ok (.attr (String.ofList n), rest)

def nameTest (s : List Char) : Except Failure (NodeTest × List Char) :=
  let (n, rest) := name s
  if n.isEmpty then .error (.misread s .nodeTest)
  else if Text.startsWith "::".toList rest then .error (.unsupported ("axis ".toList ++ n ++ "::".toList))
  else .ok (.name (String.ofList n), rest)

def nodeTest (s : List Char) : Except Failure (NodeTest × List Char) :=
  match Text.stripStart? "text()".toList s, Text.stripStart? "node()".toList s, s with
  | some rest, _, _ => .ok (.text, rest)
  | _, some rest, _ => .ok (.any, rest)
  | _, _, '*' :: rest => .ok (.any, rest)
  | _, _, '@' :: rest => attributeTest rest
  | _, _, '.' :: '.' :: _ => .error (.unsupported s)
  | _, _, '.' :: rest => .ok (.self, rest)
  | _, _, _ => nameTest s

/-- The text up to the first `]` outside quotes, and the text after that. -/
def splitPredicate? (quote : Option Char) : List Char → Option (List Char × List Char)
  | [] => none
  | c :: s =>
    let quote' :=
      match quote with
      | some q => if c = q then none else some q
      | none => if c = '\'' ∨ c = '"' then some c else none
    if c = ']' ∧ quote.isNone then some ([], s)
    else (splitPredicate? quote' s).map fun (body, rest) => (c :: body, rest)

/-- Cut at each ` and ` outside quotes. `current` holds the characters since the last cut, newest
first. -/
def splitAnd (quote : Option Char) (current : List Char) : List Char → List (List Char)
  | [] => [Text.trim current.reverse]
  | c :: s =>
    match quote, c, s with
    | some q, c, s => splitAnd (if c = q then none else some q) (c :: current) s
    | none, ' ', 'a' :: 'n' :: 'd' :: ' ' :: rest =>
      Text.trim current.reverse :: splitAnd none [] rest
    | none, c, s => splitAnd (if c = '\'' ∨ c = '"' then some c else none) (c :: current) s

/-- The text between two equal quotes; the quote itself may occur in it. -/
def unquote? (s : List Char) : Option (List Char) :=
  match Text.trim s with
  | q :: body =>
    if (q = '\'' ∨ q = '"') ∧ body.getLast? = some q then some body.dropLast else none
  | [] => none

def arguments? (s : List Char) : Option (String × String) := do
  let (key, value) ← Text.splitOnce? [','] s
  let key ← Text.stripStart? ['@'] (Text.trim key)
  let value ← unquote? value
  return (String.ofList key, String.ofList value)

def callOf? (name : String) (s : List Char) : Option (List Char) :=
  Text.stripStart? (name ++ "(").toList s >>= Text.stripEnd? [')']

def comparison? (s : List Char) : Option Condition := do
  let s ← Text.stripStart? ['@'] s
  match Text.splitOnce? ['='] s with
  | none => return .present (String.ofList (Text.trim s))
  | some (key, value) =>
    let value ← unquote? value
    return .equals (String.ofList (Text.trim key)) (String.ofList value)

def condition? (s : List Char) : Option Condition :=
  match callOf? "contains" s, callOf? "starts-with" s with
  | some inner, _ => (arguments? inner).map fun (a, v) => .contains a v
  | _, some inner => (arguments? inner).map fun (a, v) => .startsWith a v
  | none, none => comparison? s

def condition (s : List Char) : Except Failure Condition :=
  match condition? s with
  | some c => .ok c
  | none => .error (.unsupported s)

/-- Positions are numbers of 64 bits; a larger number is read as a condition, and is none. -/
def predicateBody (body : List Char) : Except Failure Predicate :=
  if body = "last()".toList then .ok .last
  else
    match (Text.readUnsigned? body).filter (· < UInt64.size) with
    | some 0 => .error (.unsupported "position 0".toList)
    | some n => .ok (.position n)
    | none => (splitAnd none [] body).mapM condition |>.map .all

def predicate (s : List Char) : Except Failure (Predicate × List Char) :=
  match splitPredicate? none s with
  | none => .error (.misread ('[' :: s) .endOfPredicate)
  | some (body, rest) => (predicateBody (Text.trim body)).map fun p => (p, rest)

def predicates (fuel : Nat) (s : List Char) : Except Failure (List Predicate × List Char) :=
  match fuel, s with
  | fuel + 1, '[' :: s => do
    let (p, rest) ← predicate s
    let (ps, rest) ← predicates fuel rest
    return (p :: ps, rest)
  | _, s => .ok ([], s)

def separator (first : Bool) (s : List Char) : Except Failure (Axis × List Char) :=
  match s with
  | '/' :: '/' :: rest => .ok (.descendant, rest)
  | '/' :: rest => .ok (.child, rest)
  | s => if first then .ok (.child, s) else .error (.misread s .separator)

def step (fuel : Nat) (first : Bool) (s : List Char) : Except Failure (Step × List Char) := do
  let (axis, rest) ← separator first s
  if rest.isEmpty then throw (.misread rest .stepAfterSeparator)
  let (test, rest) ← nodeTest rest
  let (ps, rest) ← predicates fuel rest
  return (⟨axis, test, ps⟩, rest)

/-- Steps up to the end of the text. `fuel` bounds their number, and as every step takes a character
it stays enough for the predicates of the next one. -/
def steps (fuel : Nat) (first : Bool) (s : List Char) : Except Failure (List Step) :=
  match fuel with
  | 0 => .ok []
  | fuel + 1 => do
    let (st, rest) ← step fuel first s
    if rest.isEmpty then return [st]
    return st :: (← steps fuel false rest)

def Failure.toError (s : List Char) : Failure → Error
  | .misread rest e => .misread (Text.utf8Size s - Text.utf8Size rest) e
  | .unsupported construct => .unsupported (String.ofList construct)

end Replay.XPath.Reader

namespace Replay.XPath

def parseChars (s : List Char) : Except Error Path :=
  let s := Text.trim s
  if s.isEmpty then .error .empty
  else
    match Reader.steps s.length true s with
    | .ok steps => .ok ⟨s.head? == some '/', steps⟩
    | .error f => .error (f.toError s)

def parse (s : String) : Except Error Path := parseChars s.toList

end Replay.XPath
