set_option autoImplicit false

/-!
Arithmetic on non-negative numbers with 53 significant bits. Every operation gives the exact
result rounded to the nearest such number, ties to the even one, as fractions of natural numbers.
-/

namespace Replay.Decimal

structure Rounded where
  num : Nat
  den : Nat
  deriving DecidableEq, Repr

namespace Rounded

/-- The integer nearest to `num / den`, a half going to the even neighbour. -/
def nearest (num den : Nat) : Nat :=
  let q := num / den
  let twice := 2 * (num % den)
  if twice < den ∨ (twice = den ∧ q % 2 = 0) then q else q + 1

theorem nearest_le {num den bound : Nat} (hden : 0 < den) (h : num ≤ bound * den) :
    nearest num den ≤ bound := by
  have hq : num / den ≤ bound := Nat.div_le_of_le_mul (by rw [Nat.mul_comm]; exact h)
  simp only [nearest]
  split
  · exact hq
  · next hup =>
    rcases Nat.lt_or_eq_of_le hq with hlt | heq
    · exact hlt
    · have hmod : num % den = 0 := by
        have hd := Nat.div_add_mod num den
        rw [heq, Nat.mul_comm] at hd
        omega
      rw [hmod] at hup
      omega

def leadingBit (num den : Nat) : Int :=
  let e : Int := (Nat.log2 num : Int) - Nat.log2 den
  if den * Nat.pow 2 e.toNat ≤ num * Nat.pow 2 (-e).toNat then e else e - 1

def round (num den : Nat) : Rounded :=
  if num = 0 then ⟨0, 1⟩
  else
    let shift := 52 - leadingBit num den
    if 0 ≤ shift then ⟨nearest (num * Nat.pow 2 shift.toNat) den, Nat.pow 2 shift.toNat⟩
    else ⟨nearest num (den * Nat.pow 2 (-shift).toNat) * Nat.pow 2 (-shift).toNat, 1⟩

def ofNat (n : Nat) : Rounded := round n 1

def div (a b : Rounded) : Rounded := round (a.num * b.den) (a.den * b.num)

def mul (a b : Rounded) : Rounded := round (a.num * b.num) (a.den * b.den)

def add (a b : Rounded) : Rounded := round (a.num * b.den + b.num * a.den) (a.den * b.den)

/-- The nearest integer, halves going up. -/
def toNat (a : Rounded) : Nat := (2 * a.num + a.den) / (2 * a.den)

end Rounded

end Replay.Decimal
