import ScalarSsa.Number.Shortest

/-!
# The written forms of a double

**Input.** A double and a `Layout`, the record of one written form's decisions.

**Results.** `Layout.write` gives the text.  Three layouts are in use: `Layout.code` for
numbers inside programs and instruction listings, `Layout.plain` for printed results, and
`Layout.data` for JSON.  `fixed` writes a set number of places.
-/

namespace ScalarSsa
namespace Number

/-- The decisions of one written form. -/
structure Layout where
  /-- Smallest exponent of the leading digit that is written positionally, if there is
  one. -/
  plainFrom : Option Int
  /-- Exponents of the leading digit from here on are not written positionally, if there is
  such a limit. -/
  plainBelow : Option Int
  /-- An integral value written positionally ends in `.0`. -/
  pointZero : Bool
  /-- A positive exponent carries a plus sign. -/
  plusSign : Bool
  /-- Which of two equally near decimals is taken. -/
  tie : Tie

/-- Numbers in programs and listings: `1.0`, `0.0001`, `1e16`, `1e-5`. -/
def Layout.code : Layout where
  plainFrom := some (-4)
  plainBelow := some 16
  pointZero := true
  plusSign := false
  tie := .up

/-- Printed results: `1`, `0.00001`, never with an exponent. -/
def Layout.plain : Layout where
  plainFrom := none
  plainBelow := none
  pointZero := false
  plusSign := false
  tie := .up

/-- Numbers in JSON: `1.0`, `0.00001`, `1e+16`, `1e-6`. -/
def Layout.data : Layout where
  plainFrom := some (-5)
  plainBelow := some 16
  pointZero := true
  plusSign := true
  tie := .even

/-- The exponent of the leading digit is written positionally. -/
def Layout.isPlain (l : Layout) (lead : Int) : Bool :=
  l.plainFrom.all (· ≤ lead) && l.plainBelow.all (lead < ·)

/-- The characters of a positional decimal whose leading digit has exponent `lead`. -/
def Layout.positional (l : Layout) (digits : List Char) (lead : Int) : List Char :=
  if lead < 0 then
    ['0', '.'] ++ List.replicate ((-lead).toNat - 1) '0' ++ digits
  else
    let whole := lead.toNat + 1
    let front := digits.take whole ++ List.replicate (whole - digits.length) '0'
    match digits.drop whole with
    | [] => if l.pointZero then front ++ ['.', '0'] else front
    | rest => front ++ '.' :: rest

/-- The characters of a decimal in scientific form. -/
def Layout.scientific (l : Layout) (digits : List Char) (lead : Int) : List Char :=
  let mantissa := match digits with
    | [] => []
    | [d] => [d]
    | d :: rest => d :: '.' :: rest
  let sign := if lead < 0 then ['-'] else if l.plusSign then ['+'] else []
  mantissa ++ 'e' :: sign ++ Nat.toDigits 10 lead.natAbs

/-- The text of a decimal. -/
def Layout.decimal (l : Layout) (d : Decimal) : List Char :=
  let digits := Nat.toDigits 10 d.digits
  let lead := d.exponent + (digits.length : Int) - 1
  if l.isPlain lead then l.positional digits lead else l.scientific digits lead

/-- The text of a magnitude; zero is written as the digit `0` at exponent zero. -/
def Layout.magnitude (l : Layout) (x : Binary) : List Char :=
  if x.coefficient = 0 then l.positional ['0'] 0 else l.decimal (x.shortest l.tie)

/-- A minus sign in front of negative readings. -/
def signed (negative : Bool) (text : String) : String :=
  if negative then "-" ++ text else text

/-- The text of a double. -/
def Layout.write (l : Layout) (x : Float) : String :=
  match Reading.of x with
  | .nan => "NaN"
  | .infinite negative => signed negative "inf"
  | .finite negative magnitude => signed negative (String.ofList (l.magnitude magnitude))

/--
The text of a magnitude with `places` digits after the point, rounded to
nearest, ties to even.
-/
def Binary.fixed (x : Binary) (places : Nat) : List Char :=
  let (num, den) := x.ratio
  let digits := Nat.toDigits 10 (roundDiv (num * Nat.pow 10 places) den .even)
  let padded := List.replicate (places + 1 - digits.length) '0' ++ digits
  let whole := padded.length - places
  padded.take whole ++ '.' :: padded.drop whole

/-- The text of a double with a set number of places. -/
def fixed (x : Float) (places : Nat) : String :=
  match Reading.of x with
  | .nan => "NaN"
  | .infinite negative => signed negative "inf"
  | .finite negative magnitude => signed negative (String.ofList (magnitude.fixed places))

end Number
end ScalarSsa
