import ScalarSsa.Lowering.Context
import ScalarSsa.Program.Basic

/-!
# Lowering expressions

**Input.** An expression and a context whose cursor names the block that runs first.

**Algorithm.** Operands are lowered before their operator, from left to right.  A
conditional ends the block with a branch to two new blocks that meet in a third one; its phi
names the blocks in which the branches end, which need not be the ones in which they start.

**Results.** An expression is lowered to an operand and the block in which
the cursor is left.
-/

namespace ScalarSsa
namespace Lowering

/--
The operand that an expression is lowered to and the block in which the cursor is left.
-/
structure Lowered where
  operand : Operand
  block : BlockId
  deriving DecidableEq, Repr, Inhabited

/-- An operand in the block at the cursor. -/
def here (operand : Operand) : Lowering Lowered := do
  return ⟨operand, (← insertionPoint).block⟩

/-- A name, which has to be bound. -/
def named (name : String) : Lowering Lowered := do
  match (← get).scope.find? name with
  | some operand => here operand
  | none => fail (.unknownVariable name)

/-- The instructions of an operator. -/
def operation (op : Char) (lhs rhs : Operand) : Lowering Lowered := do
  if op = '+' then here (← build (Builder.arith .add lhs rhs))
  else if op = '-' then here (← build (Builder.arith .sub lhs rhs))
  else if op = '*' then here (← build (Builder.arith .mul lhs rhs))
  else if op = '<' then here (← build (Builder.lessThan lhs rhs))
  else fail (.unknownOperator op)

/-- The function of a name, which has to exist and take the given number of arguments. -/
def callee (name : String) (given : Nat) : Lowering FuncId := do
  let m := (← get).module
  match m.find? name with
  | none => fail (.unknownFunction name)
  | some id =>
    let expected := ((m.function? id).map Function.arity).getD 0
    if expected = given then return id else fail (.arityMismatch name expected given)

/--
Lowers a branch, after which the given scope is in force, whether or not the branch failed.
-/
def restoring {α : Type} (scope : Scope) (branch : Lowering α) : Lowering α := ExceptT.mk do
  let result ← branch.run
  mapScope fun _ => scope
  return result

/--
A conditional, given how its branches are lowered.  What a branch binds is
not seen after it.
-/
def conditional (test : Operand) (thenBranch elseBranch : Lowering Lowered) :
    Lowering Lowered := do
  let flag ← build (Builder.compare .one test (.const 0.0))
  let origin ← insertionPoint
  let func := origin.func
  let thenBlock ← build (Builder.appendBlock func "then")
  let elseBlock ← build (Builder.appendBlock func "else")
  let merge ← build (Builder.appendBlock func "ifcont")
  let scope := (← get).scope
  moveTo func thenBlock
  let thenEnd ← restoring scope thenBranch
  moveTo func elseBlock
  let elseEnd ← restoring scope elseBranch
  moveTo func merge
  let value ← build
    (Builder.phi .double
      [(thenEnd.operand, thenEnd.block), (elseEnd.operand, elseEnd.block)])
  moveTo func thenEnd.block
  build (Builder.jump merge)
  moveTo func elseEnd.block
  build (Builder.jump merge)
  moveTo func origin.block
  build (Builder.branch flag thenBlock elseBlock)
  moveTo func merge
  note .trace .expression
    ("lowered conditional into " ++ thenBlock.text ++ " / " ++ elseBlock.text ++
      " / " ++ merge.text)
  return ⟨value, merge⟩

mutual

/-- Lowers an expression at the cursor. -/
def lowerExpr : Expr → Lowering Lowered
  | .number x => here (.const x)
  | .var name => named name
  | .binary op lhs rhs => do
    let l ← lowerExpr lhs
    let r ← lowerExpr rhs
    operation op l.operand r.operand
  | .call name args => do
    let id ← callee name args.length
    let operands ← lowerArgs args
    here (← build (Builder.call id operands))
  | .cond test thenBranch elseBranch => do
    let t ← lowerExpr test
    conditional t.operand (lowerExpr thenBranch) (lowerExpr elseBranch)

/-- Lowers arguments from left to right. -/
def lowerArgs : List Expr → Lowering (List Operand)
  | [] => return []
  | e :: rest => do
    let l ← lowerExpr e
    let operands ← lowerArgs rest
    return l.operand :: operands

end

end Lowering
end ScalarSsa
