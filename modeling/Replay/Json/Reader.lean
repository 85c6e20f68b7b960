import Replay.Json.Basic
import Replay.Text.Basic
set_option autoImplicit false

/-!
Reading JSON text: strict RFC 8259, with fewer than 128 levels of nesting, no lone surrogates, and
no number beyond the range of floating point.
-/

namespace Replay.Json.Reader

def isSpace (c : Char) : Bool := c == ' ' || c == '\t' || c == '\n' || c == '\r'

def skipSpace (s : List Char) : List Char := s.dropWhile isSpace

def hexValue? (c : Char) : Option Nat :=
  if c.isDigit then some (c.toNat - '0'.toNat)
  else if 'a' ≤ c && c ≤ 'f' then some (c.toNat - 'a'.toNat + 10)
  else if 'A' ≤ c && c ≤ 'F' then some (c.toNat - 'A'.toNat + 10)
  else none

def hex4? (a b c d : Char) : Option Nat := do
  let a ← hexValue? a
  let b ← hexValue? b
  let c ← hexValue? c
  let d ← hexValue? d
  return ((16 * a + b) * 16 + c) * 16 + d

def pair? (high low : Nat) : Option Char :=
  if 0xD800 ≤ high ∧ high < 0xDC00 ∧ 0xDC00 ≤ low ∧ low < 0xE000 then
    some (Char.ofNat (0x10000 + (high - 0xD800) * 0x400 + (low - 0xDC00)))
  else none

def single? (n : Nat) : Option Char :=
  if 0xD800 ≤ n ∧ n < 0xE000 then none else some (Char.ofNat n)

def escaped? : Char → Option Char
  | '"' => some '"'
  | '\\' => some '\\'
  | '/' => some '/'
  | 'b' => some '\x08'
  | 'f' => some '\x0c'
  | 'n' => some '\n'
  | 'r' => some '\r'
  | 't' => some '\t'
  | _ => none

/-- The string that ends at the next free quote, and the text after that. `done` holds its
characters so far, newest first. -/
def stringBody (done : List Char) : List Char → Option (List Char × List Char)
  | [] => none
  | '"' :: rest => some (done.reverse, rest)
  | '\\' :: 'u' :: a :: b :: c :: d :: '\\' :: 'u' :: e :: f :: g :: h :: rest =>
    match hex4? a b c d, hex4? e f g h with
    | some high, some low =>
      match pair? high low, single? high, single? low with
      | some x, _, _ => stringBody (x :: done) rest
      | none, some x, some y => stringBody (y :: x :: done) rest
      | none, some x, none => stringBody (x :: done) ('\\' :: 'u' :: e :: f :: g :: h :: rest)
      | none, none, _ => none
    | _, _ => none
  | '\\' :: 'u' :: a :: b :: c :: d :: rest =>
    match hex4? a b c d >>= single? with
    | some x => stringBody (x :: done) rest
    | none => none
  | '\\' :: c :: rest =>
    match escaped? c with
    | some x => stringBody (x :: done) rest
    | none => none
  | c :: rest => if c.toNat < 0x20 || c == '\\' then none else stringBody (c :: done) rest

def string? (s : List Char) : Option (String × List Char) :=
  (stringBody [] s).map fun (text, rest) => (String.ofList text, rest)

/-- Digits read into a significand of 64 bits, and the power of ten that goes with it. -/
structure Significand where
  value : Nat
  exponent : Int
  exact : Bool
  deriving DecidableEq, Repr

namespace Significand

def room (s : Significand) (c : Char) : Bool :=
  s.exact && 10 * s.value + Text.digitValue c < UInt64.size

/-- A digit before the point. One that finds no room, and all after it, only count as places. -/
def pushWhole (s : Significand) (c : Char) : Significand :=
  if s.room c then { s with value := 10 * s.value + Text.digitValue c }
  else { s with exponent := s.exponent + 1, exact := false }

/-- A digit after the point. One that finds no room, and all after it, are left out. -/
def pushFraction (s : Significand) (c : Char) : Significand :=
  if s.room c then ⟨10 * s.value + Text.digitValue c, s.exponent - 1, true⟩
  else { s with exact := false }

/-- Times ten to the exponent, in floating point; none when that is infinite. Exponents below the
table of powers are reached in two steps. -/
def toFloat? (s : Significand) : Option Float :=
  let f := s.value.toUInt64.toFloat
  let power (e : Nat) : Float := Float.ofScientific 1 false e
  if 0 ≤ s.exponent then
    if s.value = 0 then some f
    else if 308 < s.exponent then none
    else
      let x := f * power s.exponent.toNat
      if x.isInf then none else some x
  else if -308 ≤ s.exponent then some (f / power (-s.exponent).toNat)
  else if -616 ≤ s.exponent then some (f / power 308 / power (-s.exponent - 308).toNat)
  else some 0

end Significand

structure NumberText where
  negative : Bool
  whole : List Char
  fraction : Option (List Char)
  exponent : Option (Bool × List Char)
  deriving DecidableEq, Repr

def splitFraction? : List Char → Option (Option (List Char) × List Char)
  | '.' :: s =>
    let digits := s.takeWhile Char.isDigit
    if digits.isEmpty then none else some (some digits, s.dropWhile Char.isDigit)
  | s => some (none, s)

def splitExponentDigits? (negative : Bool) (s : List Char) :
    Option (Option (Bool × List Char) × List Char) :=
  let digits := s.takeWhile Char.isDigit
  if digits.isEmpty then none else some (some (negative, digits), s.dropWhile Char.isDigit)

def splitExponent? : List Char → Option (Option (Bool × List Char) × List Char)
  | c :: s =>
    if c = 'e' ∨ c = 'E' then
      match s with
      | '+' :: s => splitExponentDigits? false s
      | '-' :: s => splitExponentDigits? true s
      | s => splitExponentDigits? false s
    else some (none, c :: s)
  | [] => some (none, [])

/-- The number at the start of a text. No zero may stand before other digits. -/
def splitNumber? (s : List Char) : Option (NumberText × List Char) := do
  let (negative, s) := match s with
    | '-' :: s => (true, s)
    | s => (false, s)
  let whole := s.takeWhile Char.isDigit
  if whole.isEmpty || (whole.head? == some '0' && 1 < whole.length) then none
  let (fraction, s) ← splitFraction? (s.dropWhile Char.isDigit)
  let (exponent, s) ← splitExponent? s
  return (⟨negative, whole, fraction, exponent⟩, s)

def signed (negative : Bool) (x : Float) : Float := if negative then -x else x

namespace NumberText

def significand (t : NumberText) : Significand :=
  let whole := t.whole.foldl Significand.pushWhole ⟨0, 0, true⟩
  match t.fraction with
  | none => whole
  | some digits => digits.foldl Significand.pushFraction { whole with exact := true }

/-- An exponent beyond 32 bits makes the number zero or too large. -/
def real? (t : NumberText) : Option Float :=
  let s := t.significand
  match t.exponent with
  | none => s.toFloat?.map (signed t.negative)
  | some (negative, digits) =>
    let e := Text.natOfDigits digits
    if 0x80000000 ≤ e then
      if s.value ≠ 0 ∧ !negative then none else some (signed t.negative 0)
    else
      ({ s with exponent := s.exponent + (if negative then -(e : Int) else e) }).toFloat?.map
        (signed t.negative)

/-- A number without fraction and exponent is an integer if 64 bits hold it; the negative zero is
not. -/
def value? (t : NumberText) : Option Number :=
  let n := Text.natOfDigits t.whole
  if t.fraction.isNone ∧ t.exponent.isNone ∧ !t.negative ∧ n < UInt64.size then some (.integer n)
  else if t.fraction.isNone ∧ t.exponent.isNone ∧ t.negative ∧ 0 < n ∧ n ≤ 0x8000000000000000 then
    some (.integer (-n))
  else t.real?.map .real

end NumberText

def number? (s : List Char) : Option (Json × List Char) := do
  let (text, rest) ← splitNumber? s
  let n ← text.value?
  return (.number n, rest)

abbrev ValueReader := List Char → Option (Json × List Char)

/-- The items of an array after its first one. `fuel` bounds their number. -/
def items (value : ValueReader) (fuel : Nat) (done : List Json) (s : List Char) :
    Option (List Json × List Char) :=
  match fuel, skipSpace s with
  | _, ']' :: rest => some (done.reverse, rest)
  | fuel + 1, ',' :: rest =>
    match value (skipSpace rest) with
    | some (x, rest) => items value fuel (x :: done) rest
    | none => none
  | _, _ => none

def array? (value : ValueReader) (size : Nat) (s : List Char) : Option (Json × List Char) :=
  match skipSpace s with
  | ']' :: rest => some (.array [], rest)
  | s => do
    let (x, rest) ← value s
    let (xs, rest) ← items value size [x] rest
    return (.array xs, rest)

def member? (value : ValueReader) (s : List Char) : Option ((String × Json) × List Char) :=
  match s with
  | '"' :: s => do
    let (key, rest) ← string? s
    match skipSpace rest with
    | ':' :: rest => do
      let (x, rest) ← value (skipSpace rest)
      return ((key, x), rest)
    | _ => none
  | _ => none

def members (value : ValueReader) (fuel : Nat) (done : Members) (s : List Char) :
    Option (Members × List Char) :=
  match fuel, skipSpace s with
  | _, '\x7d' :: rest => some (done.reverse, rest)
  | fuel + 1, ',' :: rest =>
    match member? value (skipSpace rest) with
    | some (m, rest) => members value fuel (m :: done) rest
    | none => none
  | _, _ => none

/-- An object of at most `size` members after its first one; `s` follows its opening brace. Of
members with one key the last counts. -/
def object? (value : ValueReader) (size : Nat) (s : List Char) : Option (Json × List Char) :=
  match skipSpace s with
  | '\x7d' :: rest => some (.object [], rest)
  | s => do
    let (m, rest) ← member? value s
    let (ms, rest) ← members value size [m] rest
    return (.object (Ordered.ofList ms), rest)

/-- A value that nests arrays and objects at most `depth` levels deep, in a text of at most `size`
characters. -/
def value? (size : Nat) : Nat → ValueReader
  | depth, s =>
    match Text.stripStart? "null".toList s, Text.stripStart? "true".toList s,
      Text.stripStart? "false".toList s with
    | some rest, _, _ => some (.null, rest)
    | _, some rest, _ => some (.bool true, rest)
    | _, _, some rest => some (.bool false, rest)
    | none, none, none =>
      match depth, s with
      | _, '"' :: s => (string? s).map fun (text, rest) => (.string text, rest)
      | depth + 1, '[' :: s => array? (value? size depth) size s
      | depth + 1, '\x7b' :: s => object? (value? size depth) size s
      | _, s => number? s

end Replay.Json.Reader

namespace Replay.Json

def maxDepth : Nat := 127

def parseChars? (s : List Char) : Option Json := do
  let (value, rest) ← Reader.value? s.length maxDepth (Reader.skipSpace s)
  if (Reader.skipSpace rest).isEmpty then some value else none

def parse? (s : String) : Option Json := parseChars? s.toList

end Replay.Json
