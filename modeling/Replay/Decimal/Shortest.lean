set_option autoImplicit false

/-!
The shortest decimal text of a binary floating-point number: the fewest digits that read back as
the number, and of those the nearest to it. A number is taken apart as `m * 2 ^ q`; all steps
after that are exact arithmetic on natural numbers.
-/

namespace Replay.Decimal

structure Binary where
  m : Nat
  q : Int
  /-- The number below is only half as far away as the one above. -/
  closeBelow : Bool
  deriving DecidableEq, Repr

namespace Binary

def ofFields (exponent fraction : Nat) : Binary :=
  if exponent = 0 then ⟨fraction, -1074, false⟩
  else ⟨0x10000000000000 + fraction, exponent - 1075, fraction = 0 ∧ 1 < exponent⟩

def scaled (b : Binary) : Nat × Nat := (4 * b.m * Nat.pow 2 b.q.toNat, Nat.pow 2 (-b.q).toNat)

/-- `k * 10 ^ e` lies between the midpoints to both neighbours. A midpoint itself counts when `m`
is even, since reading rounds it to an even neighbour. -/
def admits (b : Binary) (k : Nat) (e : Int) : Bool :=
  let unit := Nat.pow 2 b.q.toNat
  let value := 4 * k * Nat.pow 10 e.toNat * (b.scaled.2)
  let low := (4 * b.m - if b.closeBelow then 1 else 2) * unit * Nat.pow 10 (-e).toNat
  let high := (4 * b.m + 2) * unit * Nat.pow 10 (-e).toNat
  if b.m % 2 = 0 then low ≤ value && value ≤ high else low < value && value < high

/-- The multiple of `10 ^ e` below the number, as a factor, and twice the rest against the
distance of two multiples: less, equal or greater. -/
def floorAt (b : Binary) (e : Int) : Nat × Ordering :=
  let num := b.scaled.1 * Nat.pow 10 (-e).toNat
  let den := 4 * b.scaled.2 * Nat.pow 10 e.toNat
  (num / den, compare (2 * (num % den)) den)

/-- The digits to write with last place `10 ^ e`, if any read back; the nearer neighbour is taken,
and of two equally near ones the even one. -/
def digitsAt? (b : Binary) (e : Int) : Option Nat :=
  let (k, half) := b.floorAt e
  let below := 0 < k && b.admits k e
  let above := b.admits (k + 1) e
  match below, above with
  | true, true =>
    match half with
    | .lt => some k
    | .gt => some (k + 1)
    | .eq => some (if k % 2 = 0 then k else k + 1)
  | true, false => some k
  | false, true => some (k + 1)
  | false, false => none

def search (b : Binary) : Nat → Int → Nat × Int
  | 0, e => (b.m, e)
  | fuel + 1, e =>
    match b.digitsAt? e with
    | some k => (k, e)
    | none => search b fuel (e - 1)

def shortest (b : Binary) : Nat × Int :=
  b.search 400 ((Nat.log2 b.m + b.q + 1) * 30103 / 100000 + 2)

end Binary

/-- Digits and a decimal point where the exponent is small, scientific notation with a signed
exponent otherwise. The text always has a fraction or an exponent. -/
def layout (digits : List Char) (e : Int) : List Char :=
  let n : Int := digits.length
  let point := n + e
  if 0 ≤ e ∧ point ≤ 16 then digits ++ List.replicate e.toNat '0' ++ ['.', '0']
  else if 0 < point ∧ point ≤ 16 then
    digits.take point.toNat ++ '.' :: digits.drop point.toNat
  else if -5 < point ∧ point ≤ 0 then
    '0' :: '.' :: List.replicate (-point).toNat '0' ++ digits
  else
    let mantissa := match digits with
      | [d] => [d]
      | d :: more => d :: '.' :: more
      | [] => []
    let sign := if 0 < point then ['+'] else []
    mantissa ++ 'e' :: (sign ++ (toString (point - 1)).toList)

def normalized (k : Nat) (e : Int) : List Char × Int :=
  let digits := Nat.toDigits 10 k
  let kept := (digits.reverse.dropWhile (· == '0')).reverse
  (kept, e + (digits.length - kept.length : Nat))

def exponentField (bits : UInt64) : Nat := (bits.toNat >>> 52) % 2048

def fractionField (bits : UInt64) : Nat := bits.toNat % 0x10000000000000

def isNegative (bits : UInt64) : Bool := 0x8000000000000000 ≤ bits.toNat

def renderBits (bits : UInt64) : String :=
  let exponent := exponentField bits
  let fraction := fractionField bits
  let sign := if isNegative bits then ['-'] else []
  let body :=
    if exponent = 0 ∧ fraction = 0 then ['0', '.', '0']
    else
      let (k, e) := (Binary.ofFields exponent fraction).shortest
      let (digits, e) := normalized k e
      layout digits e
  String.ofList (sign ++ body)

def render (x : Float) : String := renderBits x.toBits

end Replay.Decimal
