import ScalarSsa.Pass.Basic
import ScalarSsa.Flow.Exhaust

/-!
# Folding constants

**Input.** A function, well formed or not.

**Algorithm.** The first instruction that folds is removed and its uses are replaced by the
operand that it folds to.  One fold can make another possible, so this is repeated; every
fold removes an instruction.

**Results.** An instruction folds if its operands are constants, and a phi if the operands
that come in, its own result apart, are all the same.
-/

namespace ScalarSsa
namespace Pass

/-- The operand that all of some operands are the same as: the first. -/
def agreed? : List Operand → Option Operand
  | [] => none
  | first :: rest => if rest.all fun o => o.same first then some first else none

/-- The operand that an instruction folds to. -/
def foldInstr? (i : Instr) : Option Operand :=
  match i.kind with
  | .arith op (.const x) (.const y) => some (.const (op.apply x y))
  | .compare pred (.const x) (.const y) => some (.bool (pred.holds x y))
  | .promote (.bool b) => some (.const (if b then 1.0 else 0.0))
  | .phi _ incoming =>
    agreed? ((incoming.map (·.1)).filter fun o => !o.same (.result i.dest))
  | _ => none

/-- The first result that folds and the operand that it folds to. -/
def foldable? (f : Function) : Option (ValueId × Operand) :=
  f.instrs.findSome? fun i => (foldInstr? i).map fun o => (i.dest, o)

/-- One fold, if there is one. -/
def foldOnce? (f : Function) : Option Function :=
  (foldable? f).map fun (id, o) => (f.eraseResult id).replaceUses (.result id) o

/-- Replaces instructions by the constants that they compute. -/
def folding : Pass where
  name := "const-fold"
  run f := ⟨exhaust foldOnce? f.instrCount f, (foldOnce? f).isSome, []⟩

end Pass
end ScalarSsa
