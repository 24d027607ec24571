import ScalarSsa.Number.Binary

/-!
# The fewest digits that read back

**Input.** A positive magnitude.

**Algorithm.** The grids of decimals are tried from the coarsest, whose step is the leading
digit's power of ten, to finer ones.  On each grid only the two neighbours of the value can
hit its rounding interval.  The first grid with a hit wins; of two hits the nearer is taken,
and a tie goes as the caller says.

**Results.** `Binary.shortest` is a decimal without trailing zeros.
-/

namespace ScalarSsa
namespace Number

/-- The magnitude as a quotient of naturals. -/
def Binary.ratio (x : Binary) : Nat × Nat :=
  (x.coefficient * Nat.pow 2 x.exponent.toNat, Nat.pow 2 (-x.exponent).toNat)

/-- The quotient of the magnitude by `10 ^ k`, as a quotient of naturals. -/
def Binary.scaledBy (x : Binary) (k : Int) : Nat × Nat :=
  let (num, den) := x.ratio
  (num * Nat.pow 10 (-k).toNat, den * Nat.pow 10 k.toNat)

/-- The larger of the two neighbours of the value on a grid is taken. -/
def goesUp (num den : Nat) (tie : Tie) : Bool :=
  match compare (2 * (num % den)) den, tie with
  | .gt, _ => true
  | .eq, .up => true
  | .eq, .even => num / den % 2 == 1
  | .lt, _ => false

/--
The point of the grid with step `10 ^ k` that reads back as the magnitude, if there is one.
-/
def Binary.onGrid (x : Binary) (tie : Tie) (k : Int) : Option Decimal :=
  let (num, den) := x.scaledBy k
  let below : Decimal := ⟨num / den, k⟩
  let above : Decimal := ⟨num / den + 1, k⟩
  match x.holds below, x.holds above with
  | true, true => some (if goesUp num den tie then above else below)
  | true, false => some below
  | false, true => some above
  | false, false => none

/-- The number of decimal digits of a natural. -/
def digitCount (n : Nat) : Nat :=
  (Nat.toDigits 10 n).length

/-- The exponent of the leading decimal digit of a positive magnitude. -/
def Binary.leadingExponent (x : Binary) : Int :=
  let (num, den) := x.ratio
  if den ≤ num then (digitCount (num / den) : Int) - 1
  else
    -- `den / num` has `d` digits, so the value lies between `10 ^ (-d)` and `10 ^ (1 - d)`
    let d := digitCount (den / num)
    if den ≤ num * Nat.pow 10 (d - 1) then 1 - (d : Int) else - (d : Int)

/-- Moves the factors ten of the digits into the exponent; `n` bounds their number. -/
def Decimal.stripped : Nat → Decimal → Decimal
  | 0, d => d
  | n + 1, d =>
    if d.digits % 10 = 0 ∧ d.digits ≠ 0 then
      Decimal.stripped n ⟨d.digits / 10, d.exponent + 1⟩
    else d

/--
The shortest decimal that reads back as a positive magnitude; seventeen digits always do.
-/
def Binary.shortest (x : Binary) (tie : Tie) : Decimal :=
  let lead := x.leadingExponent
  let grids := (List.range 18).map fun (i : Nat) => lead - (i : Int)
  match grids.findSome? (x.onGrid tie) with
  | some d => d.stripped (digitCount d.digits)
  | none =>
    ⟨x.coefficient * Nat.pow 2 x.exponent.toNat * Nat.pow 5 (-x.exponent).toNat,
      min 0 x.exponent⟩

end Number
end ScalarSsa
