import Replay.Instant.Basic
import Replay.Text.Basic
import Replay.Toml.Basic
set_option autoImplicit false

namespace Replay.Toml.Scalar

def isWordChar (c : Char) : Bool :=
  c.isAlphanum || c == '_' || c == '+' || c == '-' || c == '.' || c == ':'

/-- The digits of a number without the underscores between them; none if an underscore is not
between two digits. -/
def plainDigits? (isDigit : Char → Bool) : List Char → Option (List Char)
  | [] => none
  | [c] => if isDigit c then some [c] else none
  | c :: '_' :: s => if isDigit c then (plainDigits? isDigit s).map (c :: ·) else none
  | c :: d :: s => if isDigit c then (plainDigits? isDigit (d :: s)).map (c :: ·) else none

def splitSign : List Char → Bool × List Char
  | '-' :: s => (true, s)
  | '+' :: s => (false, s)
  | s => (false, s)

def hexDigit? (c : Char) : Option Nat :=
  if c.isDigit then some (c.toNat - '0'.toNat)
  else if 'a' ≤ c && c ≤ 'f' then some (c.toNat - 'a'.toNat + 10)
  else if 'A' ≤ c && c ≤ 'F' then some (c.toNat - 'A'.toNat + 10)
  else none

def digitBelow (base : Nat) (c : Char) : Bool := (hexDigit? c).any (· < base)

def basedNat? (base : Nat) (s : List Char) : Option Nat :=
  (plainDigits? (digitBelow base) s).map fun ds =>
    ds.foldl (fun n c => base * n + (hexDigit? c).getD 0) 0

def decimalDigits? (s : List Char) : Option (List Char) :=
  (plainDigits? Char.isDigit s).filter fun ds => ds.head? != some '0' || ds.length == 1

def inRange (n : Int) : Bool := -0x8000000000000000 ≤ n && n < 0x8000000000000000

def integer? (s : List Char) : Option Int :=
  Option.filter inRange <|
    match s with
    | '0' :: 'x' :: ds => (basedNat? 16 ds).map Int.ofNat
    | '0' :: 'o' :: ds => (basedNat? 8 ds).map Int.ofNat
    | '0' :: 'b' :: ds => (basedNat? 2 ds).map Int.ofNat
    | s =>
      let (negative, ds) := splitSign s
      (decimalDigits? ds).map fun ds =>
        let n : Int := Text.natOfDigits ds
        if negative then -n else n

def exponent? : List Char → Option Int
  | [] => some 0
  | _ :: s =>
    let (negative, ds) := splitSign s
    (plainDigits? Char.isDigit ds).map fun ds =>
      let n : Int := Text.natOfDigits ds
      if negative then -n else n

def fraction? : List Char → Option (List Char)
  | [] => some []
  | _ :: ds => plainDigits? Char.isDigit ds

def nearest (digits : List Char) (e : Int) : Float :=
  let m := Text.natOfDigits digits
  if 0 ≤ e then
    if m = 0 then 0 else if 400 < e then 1 / 0 else Float.ofScientific (m * Nat.pow 10 e.toNat) false 0
  else if e < -400 - (digits.length : Int) then 0
  else Float.ofScientific m true (-e).toNat

/-- A number with a fraction or an exponent. One that is too large is refused, unless it is
negative. -/
def decimal? (s : List Char) : Option Float := do
  let (negative, s) := splitSign s
  let isExponent (c : Char) : Bool := c == 'e' || c == 'E'
  let mantissa := s.takeWhile (!isExponent ·)
  let exponent := s.dropWhile (!isExponent ·)
  let whole ← decimalDigits? (mantissa.takeWhile (· != '.'))
  let fraction ← fraction? (mantissa.dropWhile (· != '.'))
  let e ← exponent? exponent
  if fraction.isEmpty && exponent.isEmpty then none
  let x := nearest (whole ++ fraction) (e - fraction.length)
  if negative then some (-x) else if x.isInf then none else some x

def special? (s : List Char) : Option Float :=
  let (negative, word) := splitSign s
  if word = ['i', 'n', 'f'] then some (if negative then -1 / 0 else 1 / 0)
  else if word = ['n', 'a', 'n'] then some (0 / 0)
  else none

def real? (s : List Char) : Option Float := decimal? s <|> special? s

def twoDigits? (low high : Nat) : List Char → Option (Nat × List Char)
  | a :: b :: rest =>
    let n := Text.natOfDigits [a, b]
    if a.isDigit && b.isDigit && low ≤ n && n ≤ high then some (n, rest) else none
  | _ => none

def skipDate? : List Char → Option (List Char)
  | a :: b :: c :: d :: '-' :: s => do
    if !([a, b, c, d].all Char.isDigit) then none
    let (month, s) ← twoDigits? 1 12 s
    let s ← Text.stripStart? ['-'] s
    let (_, s) ← twoDigits? 1 (Instant.Date.daysInMonth (Text.natOfDigits [a, b, c, d]) month) s
    return s
  | _ => none

def skipFraction? : List Char → Option (List Char)
  | '.' :: s =>
    if (s.takeWhile Char.isDigit).isEmpty then none else some (s.dropWhile Char.isDigit)
  | s => some s

def skipTime? (s : List Char) : Option (List Char) := do
  let (_, s) ← twoDigits? 0 23 s
  let s ← Text.stripStart? [':'] s
  let (_, s) ← twoDigits? 0 59 s
  let s ← Text.stripStart? [':'] s
  let (_, s) ← twoDigits? 0 60 s
  skipFraction? s

def isOffset : List Char → Bool
  | ['Z'] | ['z'] => true
  | sign :: s =>
    (sign == '+' || sign == '-') &&
      ((do
        let (_, s) ← twoDigits? 0 23 s
        let s ← Text.stripStart? [':'] s
        let (_, s) ← twoDigits? 0 59 s
        return s.isEmpty) == some true)
  | [] => false

def isMoment (s : List Char) : Bool :=
  match skipDate? s with
  | some [] => true
  | some (c :: rest) =>
    (c == 'T' || c == 't' || c == ' ') &&
      (skipTime? rest).any fun offset => offset.isEmpty || isOffset offset
  | none => skipTime? s == some []

def word? (s : List Char) : Option Toml :=
  if s = ['t', 'r', 'u', 'e'] then some (.boolean true)
  else if s = ['f', 'a', 'l', 's', 'e'] then some (.boolean false)
  else if isMoment s then some (.moment (String.ofList s))
  else (real? s).map .real <|> (integer? s).map .integer

/-- The unquoted value at the start of a text. A time may follow a date after one blank. -/
def split? (s : List Char) : Option (Toml × List Char) :=
  let word := s.takeWhile isWordChar
  let rest := s.dropWhile isWordChar
  match skipDate? word, rest with
  | some [], ' ' :: c :: more =>
    if c.isDigit then
      let time := (c :: more).takeWhile isWordChar
      (word? (word ++ ' ' :: time)).map fun v => (v, (c :: more).dropWhile isWordChar)
    else (word? word).map fun v => (v, rest)
  | _, _ => (word? word).map fun v => (v, rest)

end Replay.Toml.Scalar
