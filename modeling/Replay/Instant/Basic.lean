import Replay.Text.Basic
set_option autoImplicit false

/-!
Points in time, in UTC, with their written form: date, time, and zero, three, six or nine digits of
a fraction, the fewest that are exact.
-/

namespace Replay

structure Instant where
  /-- Seconds since the start of 1970. -/
  second : Int
  /-- Nanoseconds into that second; from one to two billions inside a leap second after it. -/
  nano : Nat
  deriving DecidableEq, Repr, Inhabited

namespace Instant

def billion : Nat := 1000000000

def le (a b : Instant) : Bool :=
  a.second < b.second || (a.second == b.second && a.nano ≤ b.nano)

instance : LE Instant := ⟨fun a b => a.le b⟩

instance : DecidableLE Instant := fun a b => inferInstanceAs (Decidable (a.le b = true))

structure Date where
  year : Int
  month : Nat
  day : Nat
  deriving DecidableEq, Repr

namespace Date

def isLeapYear (year : Int) : Bool := year % 4 == 0 && (year % 100 != 0 || year % 400 == 0)

def daysInMonth (year : Int) (month : Nat) : Nat :=
  if month = 2 then (if isLeapYear year then 29 else 28)
  else if month = 4 ∨ month = 6 ∨ month = 9 ∨ month = 11 then 30 else 31

/-- Days from the start of 1970. Years are counted from March on, so that the leap day is the last
day of a year. -/
def toDays (d : Date) : Int :=
  let year := if d.month ≤ 2 then d.year - 1 else d.year
  let era := year / 400
  let yearOfEra := year % 400
  let dayOfYear : Int := (153 * ((d.month + 9) % 12) + 2) / 5 + d.day - 1
  era * 146097 + yearOfEra * 365 + yearOfEra / 4 - yearOfEra / 100 + dayOfYear - 719468

def ofDays (days : Int) : Date :=
  let shifted := days + 719468
  let era := shifted / 146097
  let dayOfEra := (shifted % 146097).toNat
  let yearOfEra := (dayOfEra - dayOfEra / 1460 + dayOfEra / 36524 - dayOfEra / 146096) / 365
  let dayOfYear := dayOfEra - (365 * yearOfEra + yearOfEra / 4 - yearOfEra / 100)
  let shiftedMonth := (5 * dayOfYear + 2) / 153
  let month := if shiftedMonth < 10 then shiftedMonth + 3 else shiftedMonth - 9
  let year := era * 400 + yearOfEra + (if month ≤ 2 then 1 else 0)
  ⟨year, month, dayOfYear - (153 * shiftedMonth + 2) / 5 + 1⟩

def renderYear (year : Int) : String :=
  if 0 ≤ year ∧ year ≤ 9999 then Text.zeroPadded 4 year.toNat
  else (if year < 0 then "-" else "+") ++ Text.zeroPadded 4 year.natAbs

def render (d : Date) : String :=
  renderYear d.year ++ "-" ++ Text.zeroPadded 2 d.month ++ "-" ++ Text.zeroPadded 2 d.day

end Date

/-- The first second and the last one of the years that the calendar covers. -/
def earliest : Int := Date.toDays ⟨-262143, 1, 1⟩ * 86400
def latest : Int := Date.toDays ⟨262142, 12, 31⟩ * 86400 + 86399

def inCalendar (second : Int) : Bool := earliest ≤ second && second ≤ latest

/-- Whole seconds later. A leap second counts as the second it follows, if any time is added, and as
the one it precedes, if any is taken off. -/
def shifted (t : Instant) (n : Int) : Instant :=
  if n = 0 then t
  else if t.nano < billion then { t with second := t.second + n }
  else ⟨t.second + n + (if n < 0 then 1 else 0), t.nano - billion⟩

/-- Whole seconds later, unless that leads out of the calendar. -/
def addSeconds? (t : Instant) (n : Int) : Option Instant :=
  let later := t.shifted n
  if inCalendar later.second then some later else none

theorem second_shifted (t : Instant) {n : Int} (hn : 0 ≤ n) :
    (t.shifted n).second = t.second + n := by
  unfold shifted
  split
  · omega
  · split
    · rfl
    · simp [Int.not_lt.mpr hn]

theorem isSome_addSeconds? {t : Instant} {n : Int} (hn : 0 ≤ n) :
    (t.addSeconds? n).isSome = inCalendar (t.second + n) := by
  rw [addSeconds?, second_shifted t hn]
  cases inCalendar (t.second + n) <;> rfl

def renderFraction (nano : Nat) : String :=
  if nano = 0 then ""
  else if nano % 1000000 = 0 then "." ++ Text.zeroPadded 3 (nano / 1000000)
  else if nano % 1000 = 0 then "." ++ Text.zeroPadded 6 (nano / 1000)
  else "." ++ Text.zeroPadded 9 nano

def render (t : Instant) : String :=
  let date := Date.ofDays (t.second / 86400)
  let time := (t.second % 86400).toNat
  let second := time % 60 + t.nano / billion
  date.render ++ "T" ++ Text.zeroPadded 2 (time / 3600) ++ ":" ++
    Text.zeroPadded 2 (time / 60 % 60) ++ ":" ++ Text.zeroPadded 2 second ++
    renderFraction (t.nano % billion) ++ "Z"

end Instant

end Replay
