import ScalarSsa.Number.Shortest

/-!
# The double nearest to a decimal

**Input.** A decimal `digits · 10 ^ exponent`.

**Results.** `Decimal.nearest` is the double nearest to it, ties to even, with infinity
beyond the range.  Decimals far outside the range are settled by the exponent of their
leading digit, before any power of ten is formed.
-/

namespace ScalarSsa
namespace Number

/-- The exponent of the leading digit of a positive decimal. -/
def Decimal.leadingExponent (d : Decimal) : Int :=
  d.exponent + (digitCount d.digits : Int) - 1

/-- The double nearest to a decimal. -/
def Decimal.nearest (d : Decimal) : Float :=
  if d.digits = 0 then 0.0
  else if 310 < d.leadingExponent then 1.0 / 0.0
  else if d.leadingExponent < -330 then 0.0
  else Float.ofScientific d.digits (d.exponent < 0) d.exponent.natAbs

/-- The double nearest to a natural. -/
def ofNat (n : Nat) : Float :=
  Decimal.nearest ⟨n, 0⟩

end Number
end ScalarSsa
