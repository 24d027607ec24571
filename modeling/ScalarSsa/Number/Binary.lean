/-!
# Doubles as scaled integers

**Input.** A double, seen through its 64 bits.

**Results.** `Reading.of` names what the bits stand for: not a number, an infinity, or a
sign and an exact magnitude `coefficient · 2 ^ exponent`.  `Binary.holds` decides exactly
whether a decimal lies among the reals that round to that magnitude.
-/

namespace ScalarSsa
namespace Number

/-- The decimal `digits · 10 ^ exponent`. -/
structure Decimal where
  digits : Nat
  exponent : Int
  deriving DecidableEq, Repr

/-- The finite magnitude `coefficient · 2 ^ exponent`. -/
structure Binary where
  coefficient : Nat
  exponent : Int
  /-- The next smaller double is only half as far away as the next larger one. -/
  narrowBelow : Bool
  deriving DecidableEq, Repr

/-- What a double stands for. -/
inductive Reading where
  | nan
  | infinite (negative : Bool)
  | finite (negative : Bool) (magnitude : Binary)
  deriving DecidableEq, Repr

/-- The magnitude with biased exponent `biased` and fraction field `fraction`. -/
def Binary.ofFields (biased fraction : Nat) : Binary :=
  if biased = 0 then ⟨fraction, -1074, false⟩
  else ⟨Nat.pow 2 52 + fraction, (biased : Int) - 1075, fraction == 0 && biased > 1⟩

/-- The sign bit, which zeros carry too. -/
def isNegative (x : Float) : Bool :=
  x.toBits >>> 63 != 0

/-- The reading of a double from its sign, exponent and fraction fields. -/
def Reading.of (x : Float) : Reading :=
  let biased := ((x.toBits >>> 52) &&& 0x7FF).toNat
  let fraction := (x.toBits &&& 0xFFFFFFFFFFFFF).toNat
  if biased = 2047 then
    if fraction = 0 then .infinite (isNegative x) else .nan
  else .finite (isNegative x) (.ofFields biased fraction)

/-- Compares `a · 10 ^ i` with `n · 2 ^ j`, exactly. -/
def compareScaled (a : Nat) (i : Int) (n : Nat) (j : Int) : Ordering :=
  compare (a * Nat.pow 10 i.toNat * Nat.pow 2 (-j).toNat)
    (n * Nat.pow 2 j.toNat * Nat.pow 10 (-i).toNat)

/--
The decimal lies among the reals that round to the magnitude.  The interval reaches half way
to both neighbours, and its ends belong to it exactly when the coefficient is even.
-/
def Binary.holds (x : Binary) (d : Decimal) : Bool :=
  let low := if x.narrowBelow then 4 * x.coefficient - 1 else 4 * x.coefficient - 2
  let high := 4 * x.coefficient + 2
  let closed := x.coefficient % 2 == 0
  let atLow := compareScaled d.digits d.exponent low (x.exponent - 2)
  let atHigh := compareScaled d.digits d.exponent high (x.exponent - 2)
  (atLow == .gt || (closed && atLow == .eq)) && (atHigh == .lt || (closed && atHigh == .eq))

/-- How an exact tie between two neighbours is settled. -/
inductive Tie where
  | up
  | even
  deriving DecidableEq, Repr

/-- The quotient of two naturals rounded to the nearest natural. -/
def roundDiv (num den : Nat) (tie : Tie) : Nat :=
  let q := num / den
  match compare (2 * (num % den)) den, tie with
  | .lt, _ => q
  | .gt, _ => q + 1
  | .eq, .up => q + 1
  | .eq, .even => if q % 2 == 0 then q else q + 1

end Number
end ScalarSsa
