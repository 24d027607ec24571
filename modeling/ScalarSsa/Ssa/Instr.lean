import ScalarSsa.Ssa.Basic

/-!
# Instructions and terminators

**Results.** An instruction computes one value from its operands; a terminator ends a block
and names the blocks that may run next.  `Terminator.successors` names each of them once.
-/

namespace ScalarSsa

/-- The arithmetic operators. -/
inductive Arith where
  | add
  | sub
  | mul
  deriving DecidableEq, Repr, Inhabited

namespace Arith

/-- The value of an operator at two doubles. -/
def apply : Arith → Float → Float → Float
  | .add, x, y => x + y
  | .sub, x, y => x - y
  | .mul, x, y => x * y

/-- The name of an operator in instructions. -/
def mnemonic : Arith → String
  | .add => "fadd"
  | .sub => "fsub"
  | .mul => "fmul"

end Arith

/-- The comparisons of doubles. -/
inductive Comparison where
  /-- Unordered or less than. -/
  | ult
  /-- Ordered and not equal. -/
  | one
  deriving DecidableEq, Repr, Inhabited

namespace Comparison

/-- The truth of a comparison at two doubles. -/
def holds (c : Comparison) (x y : Float) : Bool :=
  let unordered := x.isNaN || y.isNaN
  match c with
  | .ult => unordered || x < y
  | .one => !unordered && x != y

/-- The name of a comparison in instructions. -/
def mnemonic : Comparison → String
  | .ult => "ult"
  | .one => "one"

end Comparison

/-- What an instruction computes. -/
inductive InstrKind where
  | arith (op : Arith) (lhs rhs : Operand)
  | compare (pred : Comparison) (lhs rhs : Operand)
  /-- One for a true operand and zero for a false one. -/
  | promote (src : Operand)
  | call (callee : FuncId) (name : String) (args : List Operand)
  /-- The operand that comes with the block that ran before. -/
  | phi (type : ValueType) (incoming : List (Operand × BlockId))
  deriving DecidableEq, Repr, Inhabited

namespace InstrKind

/-- The type of the result. -/
def type : InstrKind → ValueType
  | .compare .. => .bool
  | .phi type _ => type
  | _ => .double

/-- The operands in order. -/
def operands : InstrKind → List Operand
  | .arith _ lhs rhs => [lhs, rhs]
  | .compare _ lhs rhs => [lhs, rhs]
  | .promote src => [src]
  | .call _ _ args => args
  | .phi _ incoming => incoming.map (·.1)

/-- The instruction with a function applied to each operand. -/
def mapOperands (f : Operand → Operand) : InstrKind → InstrKind
  | .arith op lhs rhs => .arith op (f lhs) (f rhs)
  | .compare pred lhs rhs => .compare pred (f lhs) (f rhs)
  | .promote src => .promote (f src)
  | .call callee name args => .call callee name (args.map f)
  | .phi type incoming => .phi type (incoming.map fun edge => (f edge.1, edge.2))

/-- The instruction with a function applied to the incoming edges of a phi. -/
def mapIncoming (f : List (Operand × BlockId) → List (Operand × BlockId)) :
    InstrKind → InstrKind
  | .phi type incoming => .phi type (f incoming)
  | kind => kind

/-- A pure instruction may be removed when nothing uses its result. -/
def isPure : InstrKind → Bool
  | .call .. => false
  | _ => true

/-- The instruction is a phi. -/
def isPhi : InstrKind → Bool
  | .phi .. => true
  | _ => false

end InstrKind

/-- An instruction and the name of its result. -/
structure Instr where
  dest : ValueId
  kind : InstrKind
  deriving DecidableEq, Repr, Inhabited

/-- The text of a list of operands. -/
def Operand.listText (operands : List Operand) : String :=
  ", ".intercalate (operands.map Operand.text)

/-- The text of an incoming edge. -/
def incomingText (edge : Operand × BlockId) : String :=
  "[ " ++ edge.1.text ++ ", " ++ edge.2.text ++ " ]"

/-- The text of what an instruction computes. -/
def InstrKind.text : InstrKind → String
  | .arith op lhs rhs => op.mnemonic ++ " double " ++ Operand.listText [lhs, rhs]
  | .compare pred lhs rhs =>
    "fcmp " ++ pred.mnemonic ++ " double " ++ Operand.listText [lhs, rhs]
  | .promote src => "uitofp i1 " ++ src.text ++ " to double"
  | .call _ name args => "call double @" ++ name ++ "(" ++ Operand.listText args ++ ")"
  | .phi type incoming =>
    "phi " ++ type.text ++ " " ++ ", ".intercalate (incoming.map incomingText)

/-- The text of an instruction. -/
def Instr.text (i : Instr) : String :=
  i.dest.text ++ " = " ++ i.kind.text

/-- The end of a block. -/
inductive Terminator where
  | jump (target : BlockId)
  | branch (cond : Operand) (thenBlock elseBlock : BlockId)
  | ret (value : Operand)
  deriving DecidableEq, Repr, Inhabited

namespace Terminator

/-- The blocks that may run next, each once. -/
def successors : Terminator → List BlockId
  | .jump target => [target]
  | .branch _ thenBlock elseBlock =>
    if thenBlock = elseBlock then [thenBlock] else [thenBlock, elseBlock]
  | .ret _ => []

/-- The operands. -/
def operands : Terminator → List Operand
  | .jump _ => []
  | .branch cond _ _ => [cond]
  | .ret value => [value]

/-- The terminator with a function applied to each operand. -/
def mapOperands (f : Operand → Operand) : Terminator → Terminator
  | .jump target => .jump target
  | .branch cond thenBlock elseBlock => .branch (f cond) thenBlock elseBlock
  | .ret value => .ret (f value)

/-- The text of a terminator. -/
def text : Terminator → String
  | .jump target => "br " ++ target.text
  | .branch cond thenBlock elseBlock =>
    "br i1 " ++ cond.text ++ ", " ++ thenBlock.text ++ ", " ++ elseBlock.text
  | .ret value => "ret double " ++ value.text

end Terminator

end ScalarSsa
