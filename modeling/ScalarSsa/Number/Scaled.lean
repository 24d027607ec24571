import ScalarSsa.Number.Nearest

/-!
# Decimals scaled in double arithmetic

**Input.** A decimal `digits · 10 ^ exponent` with digits below `2 ^ 64`.

**Algorithm.** The digits become a double, which is multiplied or divided by a double power
of ten.  Each of these steps rounds, so the result can differ from the nearest double.  A
divisor beyond `10 ^ 308` is split into factors `10 ^ 308` and a last factor.

**Results.** `Decimal.scaled` is the double that numerals are read as; there is none for a
product beyond the range.
-/

namespace ScalarSsa
namespace Number

/-- The largest exponent of a finite power of ten. -/
def maxPower : Nat := 308

/-- The double nearest to `10 ^ k`. -/
def powerOfTen (k : Nat) : Float :=
  Decimal.nearest ⟨1, k⟩

/-- Divides by the largest power of ten `rounds` times, or until nothing is left. -/
def sunk (x : Float) : (rounds : Nat) → Float
  | 0 => x
  | rounds + 1 => if x == 0.0 then x else sunk (x / powerOfTen maxPower) rounds

/--
The quotient by `10 ^ k`, where only the last divisor may be smaller than the
largest power of ten.
-/
def scaledDown (x : Float) (k : Nat) : Float :=
  let rounds := (k - 1) / maxPower
  sunk x rounds / powerOfTen (k - maxPower * rounds)

/-- The product with `10 ^ k`, if it is finite. -/
def scaledUp (x : Float) (k : Nat) : Option Float :=
  let product := x * powerOfTen k
  if k ≤ maxPower ∧ product.isFinite then some product else none

/-- The double that a decimal is read as. -/
def Decimal.scaled (d : Decimal) : Option Float :=
  if d.digits = 0 then some 0.0
  else if d.exponent < 0 then some (scaledDown (ofNat d.digits) d.exponent.natAbs)
  else scaledUp (ofNat d.digits) d.exponent.toNat

end Number
end ScalarSsa
