import ScalarSsa.Ssa.Function
import ScalarSsa.Flow.Exhaust

/-!
# Reachable blocks

**Input.** A function, well formed or not.

**Algorithm.** A search keeps the blocks found and the blocks still to be looked at.
A block that is found for the first time brings its successors, of which there are at
most two, so the search looks at one block at the start and at two more for each
block of the function.

**Results.** `Function.reachable` lists the blocks that some path of successors leads to.  A
block that does not exist is listed if a branch names it, and leads nowhere.
-/

namespace ScalarSsa

/-- Follows successors from the blocks in `todo`, looking at most at `fuel` of them. -/
def search (next : BlockId → List BlockId) :
    (fuel : Nat) → (todo found : List BlockId) → List BlockId
  | 0, _, found => found
  | _ + 1, [], found => found
  | fuel + 1, id :: todo, found =>
    if found.contains id then search next fuel todo found
    else search next fuel (next id ++ todo) (id :: found)

namespace Function

/-- The number of blocks that a search looks at. -/
def searchBound (f : Function) : Nat :=
  2 * f.blocks.length + 1

/-- The blocks that a path from the entry leads to. -/
def reachable (f : Function) : List BlockId :=
  search f.successors f.searchBound f.entry?.toList []

end Function
end ScalarSsa
