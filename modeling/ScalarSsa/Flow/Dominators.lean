import ScalarSsa.Flow.Reachability

/-!
# Dominators

**Input.** A function, well formed or not.

**Algorithm.** The entry starts with itself alone and every other block with all reachable
blocks.  A round goes through the other blocks in order.  Each takes what the sets of its
predecessors share, and itself; the blocks after it see the new set.  Rounds are repeated
for as long as they change a set, and a set that changes becomes smaller.

**Results.** `Function.dominators` gives for each existing reachable block the blocks that
every path from the entry to it runs through.
-/

namespace ScalarSsa

/-- For each block of a list, some of the reachable blocks. -/
abbrev DominatorSets := List (BlockId × List BlockId)

namespace DominatorSets

/-- The set of a block, if it has one. -/
def of? (sets : DominatorSets) (id : BlockId) : Option (List BlockId) :=
  sets.lookup id

/-- A block has a set that holds another one. -/
def dominates (sets : DominatorSets) (upper lower : BlockId) : Bool :=
  match sets.of? lower with
  | some set => set.contains upper
  | none => false

/-- The sets with another one for a block that has one. -/
def put (sets : DominatorSets) (id : BlockId) (set : List BlockId) : DominatorSets :=
  sets.map fun entry => if entry.1 = id then (id, set) else entry

/-- What all of some sets hold; nothing if there are none. -/
def shared : List (List BlockId) → List BlockId
  | [] => []
  | first :: rest => first.filter fun d => rest.all fun set => set.contains d

/-- Two sets hold the same blocks. -/
def agree (set set' : List BlockId) : Bool :=
  set.all set'.contains && set'.all set.contains

end DominatorSets

namespace Function

/-- The existing reachable blocks in order. -/
def reachableBlocks (f : Function) : List BlockId :=
  let found := f.reachable
  f.blockIds.filter found.contains

/-- The existing reachable blocks other than the entry, in order. -/
def innerBlocks (f : Function) : List BlockId :=
  f.reachableBlocks.filter fun id => f.entry? != some id

/-- The sets before the first round. -/
def firstSets (f : Function) : DominatorSets :=
  let found := f.reachable
  f.reachableBlocks.map fun id => (id, if f.entry? = some id then [id] else found)

/-- The set of a block, given those of its predecessors. -/
def setBelow (f : Function) (sets : DominatorSets) (id : BlockId) : List BlockId :=
  (DominatorSets.shared ((f.predecessors id).filterMap sets.of?)).insert id

/-- The sets with that of one block renewed, and whether any set has changed. -/
def renewSet (f : Function) : DominatorSets × Bool → BlockId → DominatorSets × Bool
  | (sets, changed), id =>
    let set := f.setBelow sets id
    if (sets.of? id).any (DominatorSets.agree set) then (sets, changed)
    else (sets.put id set, true)

/-- One round, if it changes anything. -/
def nextSets? (f : Function) (sets : DominatorSets) : Option DominatorSets :=
  match f.innerBlocks.foldl f.renewSet (sets, false) with
  | (next, true) => some next
  | (_, false) => none

/-- The dominators of each existing reachable block. -/
def dominators (f : Function) : DominatorSets :=
  exhaust f.nextSets? (f.reachableBlocks.length * f.reachable.length) f.firstSets

end Function
end ScalarSsa
