import ScalarSsa.Pass.Basic
import ScalarSsa.Flow.Exhaust

/-!
# Removing unused instructions

**Input.** A function, well formed or not.

**Algorithm.** Each round removes the pure instructions whose result no other instruction
and no terminator uses.  That can make further results unused, so rounds are repeated until
nothing is removed.

**Results.** Calls stay, since the callee may write output.  A phi that only
feeds itself is unused.
-/

namespace ScalarSsa
namespace Pass

/-- The results that an instruction uses, its own apart. -/
def usedBy (i : Instr) : List ValueId :=
  (i.kind.operands.filterMap Operand.result?).filter fun id => id != i.dest

/-- The results that are used in a function. -/
def used (f : Function) : List ValueId :=
  f.blocks.flatMap fun b =>
    b.instrs.flatMap usedBy ++ b.termOperands.filterMap Operand.result?

/-- The function without the pure instructions whose results are not among those given. -/
def keepUsed (results : List ValueId) (f : Function) : Function :=
  f.mapBlocks fun b =>
    { b with instrs := b.instrs.filter fun i => !i.kind.isPure || results.contains i.dest }

/-- One round, if it removes anything. -/
def removeUnused? (f : Function) : Option Function :=
  let g := keepUsed (used f) f
  if g.instrCount < f.instrCount then some g else none

/-- One round with a note about it. -/
def removeUnusedNoting? : Function × List Note → Option (Function × List Note)
  | (f, notes) => (removeUnused? f).map fun g =>
    let count := toString (f.instrCount - g.instrCount)
    (g, ⟨.trace, .unused, "dce removed " ++ count ++ " instruction(s) from '" ++
      f.name ++ "'"⟩ :: notes)

/-- Removes pure instructions whose results are never used. -/
def unused : Pass where
  name := "dce"
  run f :=
    let (g, notes) := exhaust removeUnusedNoting? f.instrCount (f, [])
    ⟨g, (removeUnused? f).isSome, notes⟩

end Pass
end ScalarSsa
