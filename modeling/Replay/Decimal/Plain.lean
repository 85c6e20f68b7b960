import Replay.Decimal.Shortest
set_option autoImplicit false

namespace Replay.Decimal

def spell (digits : List Char) (e : Int) : List Char :=
  let point := digits.length + e
  if 0 ≤ e then digits ++ List.replicate e.toNat '0'
  else if 0 < point then digits.take point.toNat ++ '.' :: digits.drop point.toNat
  else '0' :: '.' :: List.replicate (-point).toNat '0' ++ digits

def plainBits (bits : UInt64) : String :=
  let exponent := exponentField bits
  let fraction := fractionField bits
  let sign := if isNegative bits then ['-'] else []
  let body :=
    if exponent = 0 ∧ fraction = 0 then ['0']
    else
      let (k, e) := (Binary.ofFields exponent fraction).shortest
      let (digits, e) := normalized k e
      spell digits e
  String.ofList (sign ++ body)

def plain (x : Float) : String :=
  if x.isNaN then "NaN"
  else if x.isInf then (if x < 0 then "-inf" else "inf")
  else plainBits x.toBits

end Replay.Decimal
