import ScalarSsa.Pass.Basic
import ScalarSsa.Flow.Reachability

/-!
# Simplifying control flow

**Input.** A function, well formed or not.

**Algorithm.** First every branch whose target is known becomes a jump.  Then unreachable
blocks are removed.  Last, for as long as there is one, a block whose only predecessor jumps
to it is merged into that predecessor; every merge removes a block.  Phis lose the edges
that disappear.

**Results.** `Pass.branches` runs the three steps.
-/

namespace ScalarSsa
namespace Pass

/--
The target of a branch that is known to take it, and the block that the
branch never reaches.
-/
def settled? (b : Block) : Option (BlockId × BlockId) :=
  match b.term with
  | some (.branch (.bool taken) thenBlock elseBlock) =>
    some (if taken then (thenBlock, elseBlock) else (elseBlock, thenBlock))
  | some (.branch _ thenBlock elseBlock) =>
    if thenBlock = elseBlock then some (thenBlock, thenBlock) else none
  | _ => none

/-- The function with the branch of a block turned into a jump, if its target is known. -/
def settle (f : Function) (id : BlockId) : Function :=
  match (f.block? id).bind settled? with
  | none => f
  | some (target, dropped) =>
    let g := f.mapBlock id fun b => { b with term := some (.jump target) }
    if dropped = target then g else g.dropEdges dropped id

/-- The function with all known branches turned into jumps. -/
def settleAll (f : Function) : Function :=
  f.blockIds.foldl settle f

/-- The function without a block and without the edges from it. -/
def prune (f : Function) (id : BlockId) : Function :=
  match f.block? id with
  | none => f
  | some b => b.successors.foldl (fun g target => g.dropEdges target id) (f.eraseBlock id)

/-- The blocks that no path from the entry leads to. -/
def unreachable (f : Function) : List BlockId :=
  let found := f.reachable
  f.blockIds.filter fun id => !found.contains id

/-- The function without unreachable blocks. -/
def pruneAll (f : Function) : Function :=
  (unreachable f).foldl prune f

/--
The predecessor that a block can be merged into: the only one, and it jumps to the block.
-/
def mergeTarget? (f : Function) (b : Block) : Option BlockId :=
  if f.entry? = some b.id then none
  else
    match f.predecessors b.id with
    | [pred] =>
      if pred = b.id then none
      else if (f.block? pred).bind (·.term) = some (.jump b.id) then some pred else none
    | _ => none

/-- The results of a block's phis with the first operand that comes in. -/
def phiReplacements (b : Block) : List (ValueId × Operand) :=
  b.instrs.filterMap fun i =>
    match i.kind with
    | .phi _ ((o, _) :: _) => some (i.dest, o)
    | _ => none

/-- The function with a block merged into its predecessor. -/
def merge (f : Function) (pred : BlockId) (b : Block) : Function :=
  let moved := b.instrs.filter fun i => !i.kind.isPhi
  let joined := (f.eraseBlock b.id).mapBlock pred fun p =>
    { p with instrs := p.instrs ++ moved, term := b.term }
  let replaced :=
    (phiReplacements b).foldl (fun g (id, o) => g.replaceUses (.result id) o) joined
  b.successors.foldl (fun g target => g.retargetEdges target b.id pred) replaced

/-- The first block that can be merged, with its predecessor. -/
def mergeable? (f : Function) : Option (BlockId × Block) :=
  f.blocks.findSome? fun b => (mergeTarget? f b).map fun pred => (pred, b)

/-- One merge, if there is one. -/
def mergeOnce? (f : Function) : Option Function :=
  (mergeable? f).map fun (pred, b) => merge f pred b

/-- Simplifies control flow. -/
def branches : Pass where
  name := "simplify-cfg"
  run f :=
    let settledAll := settleAll f
    let pruned := pruneAll settledAll
    ⟨exhaust mergeOnce? pruned.blocks.length pruned,
      (f.blocks.any fun b => (settled? b).isSome) || !(unreachable settledAll).isEmpty ||
        (mergeOnce? pruned).isSome,
      []⟩

end Pass
end ScalarSsa
