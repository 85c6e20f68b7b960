import Replay.Instant.Basic
set_option autoImplicit false

/-!
Reading points in time: a date, `T`, `t` or a blank, a time with seconds and an optional fraction,
and an offset from UTC. Blanks are skipped between the parts. Every reader returns the value and
the text after it.
-/

namespace Replay.Instant.Reader

def digits? (width : Nat) (s : List Char) : Option (Nat × List Char) :=
  let ds := (s.takeWhile Char.isDigit).take width
  if ds.isEmpty then none else some (Text.natOfDigits ds, s.drop ds.length)

def manyDigits? (s : List Char) : Option (Nat × List Char) :=
  (digits? s.length s).filter fun (n, _) => n < 0x8000000000000000

/-- A number of at most two digits, within bounds; blanks in front are skipped. -/
def field? (low high : Nat) (s : List Char) : Option (Nat × List Char) :=
  (digits? 2 (Text.trimStart s)).filter fun (n, _) => low ≤ n && n ≤ high

/-- At most four digits, or any number of them after a sign. -/
def year? (s : List Char) : Option (Int × List Char) :=
  match Text.trimStart s with
  | '-' :: s => (manyDigits? s).map fun (n, rest) => (-(n : Int), rest)
  | '+' :: s => (manyDigits? s).map fun (n, rest) => ((n : Int), rest)
  | s => (digits? 4 s).map fun (n, rest) => ((n : Int), rest)

def mark? (c : Char) (s : List Char) : Option (List Char) := Text.stripStart? [c] (Text.trimStart s)

def isYear (y : Int) : Bool := -262143 ≤ y && y ≤ 262142

def date? (s : List Char) : Option (Date × List Char) := do
  let (year, s) ← year? s
  let s ← mark? '-' s
  let (month, s) ← field? 1 12 s
  let s ← mark? '-' s
  let (day, s) ← field? 1 31 s
  if isYear year && day ≤ Date.daysInMonth year month then some (⟨year, month, day⟩, s) else none

/-- A point and up to nine digits that count, as nanoseconds; without a point, none. -/
def fraction? : List Char → Option (Nat × List Char)
  | '.' :: s =>
    let ds := (s.takeWhile Char.isDigit).take 9
    if ds.isEmpty then none
    else some (Text.natOfDigits ds * Nat.pow 10 (9 - ds.length), s.dropWhile Char.isDigit)
  | s => some (0, s)

/-- Seconds into the day and nanoseconds; second 60 is a leap second after second 59. -/
def time? (s : List Char) : Option ((Nat × Nat) × List Char) := do
  let (hour, s) ← field? 0 23 s
  let s ← mark? ':' s
  let (minute, s) ← field? 0 59 s
  let s ← mark? ':' s
  let (second, s) ← field? 0 60 s
  let (nano, s) ← fraction? s
  let start := hour * 3600 + minute * 60
  return (if second = 60 then (start + 59, billion + nano) else (start + second, nano), s)

def clock? : List Char → Option (Nat × List Char)
  | h₁ :: h₂ :: s =>
    match s.dropWhile fun c => c == ':' || Text.isBlank c with
    | m₁ :: m₂ :: rest =>
      let hours := Text.natOfDigits [h₁, h₂]
      let minutes := Text.natOfDigits [m₁, m₂]
      if [h₁, h₂, m₁, m₂].all Char.isDigit && hours < 24 && minutes < 60 then
        some (hours * 3600 + minutes * 60, rest)
      else none
    | _ => none
  | _ => none

def offset? (s : List Char) : Option (Int × List Char) :=
  match Text.trimStart s with
  | 'Z' :: s | 'z' :: s => some (0, s)
  | '+' :: s => (clock? s).map fun (n, rest) => ((n : Int), rest)
  | '-' :: s | '−' :: s => (clock? s).map fun (n, rest) => (-(n : Int), rest)
  | u :: t :: c :: s => if Text.sameIgnoringCase [u, t, c] ['U', 'T', 'C'] then some (0, s) else none
  | _ => none

def dateEnd? : List Char → Option (List Char)
  | 'T' :: s | 't' :: s | ' ' :: s => some s
  | _ => none

def instant? (s : List Char) : Option Instant := do
  let (date, s) ← date? s
  let s ← dateEnd? s
  let ((second, nano), s) ← time? s
  let (offset, s) ← offset? s
  let second := date.toDays * 86400 + second - offset
  if s.all Text.isBlank && isYear (Date.ofDays (second / 86400)).year then some ⟨second, nano⟩ else none

end Replay.Instant.Reader

namespace Replay.Instant

def parse? (s : String) : Option Instant := Reader.instant? s.toList

end Replay.Instant
