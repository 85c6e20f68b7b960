import Replay.Text.Basic
set_option autoImplicit false

namespace Replay.Xml.Entity

def scalar? (n : Nat) : Option Char :=
  if h : n.isValidChar then (if n = 0 then none else some (Char.ofNatAux n h)) else none

def hexValue? (c : Char) : Option Nat :=
  if c.isDigit then some (c.toNat - '0'.toNat)
  else if 'a' ≤ c && c ≤ 'f' then some (c.toNat - 'a'.toNat + 10)
  else if 'A' ≤ c && c ≤ 'F' then some (c.toNat - 'A'.toNat + 10)
  else none

def readHex? (s : List Char) : Option Nat :=
  if s.isEmpty then none
  else s.foldlM (fun n c => (hexValue? c).map fun d => 16 * n + d) 0

def resolve? : List Char → Option Char
  | '#' :: 'x' :: digits => readHex? digits >>= scalar?
  | '#' :: digits => Text.readNat? digits >>= scalar?
  | ['l', 't'] => some '<'
  | ['g', 't'] => some '>'
  | ['a', 'm', 'p'] => some '&'
  | ['a', 'p', 'o', 's'] => some '\''
  | ['q', 'u', 'o', 't'] => some '"'
  | _ => none

/-- Replace every reference of a value. `pending` holds the characters after an ampersand, newest
first; another ampersand there, or the end, makes the value no value. -/
def expandFrom (pending : Option (List Char)) (done : List Char) : List Char → Option (List Char)
  | [] => if pending.isNone then some done.reverse else none
  | c :: rest =>
    match pending with
    | none => if c = '&' then expandFrom (some []) done rest else expandFrom none (c :: done) rest
    | some name =>
      if c = '&' then none
      else if c = ';' then
        match resolve? name.reverse with
        | some x => expandFrom none (x :: done) rest
        | none => none
      else expandFrom (some (c :: name)) done rest

def expand? (value : List Char) : Option (List Char) := expandFrom none [] value

def escapeChar : Char → List Char
  | '<' => ['&', 'l', 't', ';']
  | '>' => ['&', 'g', 't', ';']
  | '&' => ['&', 'a', 'm', 'p', ';']
  | '\'' => ['&', 'a', 'p', 'o', 's', ';']
  | '"' => ['&', 'q', 'u', 'o', 't', ';']
  | c => [c]

def escape (s : List Char) : List Char := s.flatMap escapeChar

end Replay.Xml.Entity
