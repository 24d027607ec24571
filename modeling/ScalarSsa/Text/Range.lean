/-!
# Ranges of characters

**Input.** A list of closed ranges of character codes.

**Results.** `inRanges` says whether a character's code lies in one of them.
-/

namespace ScalarSsa
namespace Text

/-- A character's code lies in a closed range. -/
def inRange (low high : Nat) (c : Char) : Bool :=
  low ≤ c.toNat && c.toNat ≤ high

/-- A character's code lies in one of the closed ranges. -/
def inRanges (ranges : List (Nat × Nat)) (c : Char) : Bool :=
  ranges.any fun r => inRange r.1 r.2 c

end Text
end ScalarSsa
