import ScalarSsa.Ssa.Module
import ScalarSsa.Flow.Dominators
import ScalarSsa.Verify.Problem

/-!
# Checking functions

**Input.** A module and a function of it.

**Algorithm.** The rules are checked one after the other and all problems are collected.  A
block without a terminator is only reported for that; the use of a value is checked only in
blocks that are reachable.

**Results.** `Module.verify` accepts a function whose list of problems is empty; a
declaration has none.
-/

namespace ScalarSsa
namespace Verify

/-- The entry runs only once. -/
def entryProblems (f : Function) : List Problem :=
  match f.entry? with
  | some entry =>
    if (f.predecessors entry).isEmpty then [] else [.entryHasPredecessors entry]
  | none => []

/-- Every value is defined by one instruction; `seen` are the values defined before. -/
def repeatProblems (seen : List ValueId) : List Instr → List Problem
  | [] => []
  | i :: rest =>
    if seen.contains i.dest then .repeatedResult i.dest :: repeatProblems seen rest
    else repeatProblems (i.dest :: seen) rest

/-- An operand exists and has the type that its place asks for. -/
def operandProblems (f : Function) (role : Role) (expected : ValueType)
    (operand : Operand) : List Problem :=
  match f.typeOf? operand with
  | some actual =>
    if actual = expected then [] else [.wrongType role operand actual expected]
  | none => [.undefinedOperand role operand]

/-- The targets exist and the operand has the right type. -/
def termProblems (f : Function) (block : BlockId) (term : Terminator) : List Problem :=
  (term.successors.filter fun target => !f.blockIds.contains target).map
    (Problem.missingTarget block) ++
    match term with
    | .jump _ => []
    | .branch cond _ _ => operandProblems f .condition .bool cond
    | .ret value => operandProblems f .returned .double value

/-- An incoming edge brings an operand of the phi's type from a predecessor. -/
def edgeProblems (f : Function) (block : BlockId) (phi : ValueId) (type : ValueType)
    (edge : Operand × BlockId) :
    List Problem :=
  operandProblems f .incoming type edge.1 ++
    if (f.predecessors block).contains edge.2 then [] else [.strayEdge phi edge.2 block]

/-- A phi stands at the start of its block and has an edge for every predecessor. -/
def phiProblems (f : Function) (b : Block) (place : Nat) (phi : ValueId) (type : ValueType)
    (incoming : List (Operand × BlockId)) : List Problem :=
  (if place < b.phis.length then [] else [.latePhi phi b.id]) ++
    incoming.flatMap (edgeProblems f b.id phi type) ++
    ((f.predecessors b.id).filter fun pred => !(incoming.map (·.2)).contains pred).map
      (Problem.missingEdge phi)

/-- A callee exists and takes as many arguments as it is given. -/
def calleeProblems (m : Module) (callee : FuncId) (name : String)
    (given : Nat) : List Problem :=
  match m.function? callee with
  | some target =>
    if target.arity = given then [] else [.wrongArity name given target.arity]
  | none => [.missingCallee name]

/-- The rules for an instruction at its place in a block. -/
def instrProblems (m : Module) (f : Function) (b : Block) (i : Instr)
    (place : Nat) : List Problem :=
  match i.kind with
  | .phi type incoming => phiProblems f b place i.dest type incoming
  | .arith _ lhs rhs => [lhs, rhs].flatMap (operandProblems f .operand .double)
  | .compare _ lhs rhs => [lhs, rhs].flatMap (operandProblems f .operand .double)
  | .promote src => operandProblems f .operand .bool src
  | .call callee name args =>
    calleeProblems m callee name args.length ++
      args.flatMap (operandProblems f .argument .double)

/-- The rules for a block by itself. -/
def blockProblems (m : Module) (f : Function) (b : Block) : List Problem :=
  match b.term with
  | none => [.noTerminator b.id b.label]
  | some term =>
    termProblems f b.id term ++ b.instrs.zipIdx.flatMap fun (i, place) =>
      instrProblems m f b i place

/-- The value that comes over an edge is computed before its block ends. -/
def edgeUseProblems (f : Function) (sets : DominatorSets) (phi : ValueId)
    (edge : Operand × BlockId) : List Problem :=
  match edge.1.result? with
  | none => []
  | some id =>
    match f.definition? id with
    | none => []
    | some (home, _) =>
      if (sets.of? edge.2).isSome && !sets.dominates home edge.2 then
        [.edgeNotDominated phi id edge.2]
      else []

/-- An operand of an instruction is computed before it. -/
def useProblems (f : Function) (sets : DominatorSets) (block : BlockId)
    (user : ValueId) (place : Nat)
    (operand : Operand) : List Problem :=
  match operand.result? with
  | none => []
  | some id =>
    match f.definition? id with
    | none => []
    | some (home, position) =>
      if home = block then if position < place then [] else [.usedTooEarly id user]
      else if sets.dominates home block then [] else [.useNotDominated id user]

/-- An operand of a terminator is computed before it. -/
def endUseProblems (f : Function) (sets : DominatorSets) (block : BlockId)
    (operand : Operand) : List Problem :=
  match operand.result? with
  | none => []
  | some id =>
    match f.definition? id with
    | none => []
    | some (home, _) =>
      if sets.dominates home block then [] else [.endNotDominated id block]

/-- Every value that an instruction uses is computed before it. -/
def instrUseProblems (f : Function) (sets : DominatorSets) (block : BlockId)
    (i : Instr) (place : Nat) :
    List Problem :=
  match i.kind with
  | .phi _ incoming => incoming.flatMap (edgeUseProblems f sets i.dest)
  | kind => kind.operands.flatMap (useProblems f sets block i.dest place)

/-- Every value that a reachable block uses is computed before its use. -/
def dominanceProblems (f : Function) (sets : DominatorSets) (b : Block) : List Problem :=
  if (sets.of? b.id).isSome then
    (b.instrs.zipIdx.flatMap fun (i, place) => instrUseProblems f sets b.id i place) ++
      b.termOperands.flatMap (endUseProblems f sets b.id)
  else []

/-- All problems of a function. -/
def problems (m : Module) (f : Function) : List Problem :=
  if f.hasBody then
    let sets := f.dominators
    entryProblems f ++ repeatProblems [] f.instrs ++ f.blocks.flatMap (blockProblems m f) ++
      f.blocks.flatMap (dominanceProblems f sets)
  else []

end Verify

namespace Module

/-- Accepts a function that breaks no rule. -/
def verify (m : Module) (f : Function) : Except Malformed Unit :=
  match Verify.problems m f with
  | [] => .ok ()
  | problems => .error ⟨f.name, problems⟩

/-- The functions of a module that break rules, in order. -/
def malformed (m : Module) : List Malformed :=
  m.functions.filterMap fun f =>
    match m.verify f with
    | .ok () => none
    | .error e => some e

end Module

end ScalarSsa
