import ScalarSsa.Ssa.Module
import ScalarSsa.Json.Basic

/-!
# Modules as JSON documents

**Results.** `Module.toJson` writes the functions with all their blocks.  A variant is an
object whose one field names it.
-/

namespace ScalarSsa

/-- The document of a variant with its fields. -/
def variantToJson (name : String) (fields : List (String × Json)) : Json :=
  .object [(name, .object fields)]

/-- The document of a function's identifier. -/
def FuncId.toJson (id : FuncId) : Json :=
  .count id.index.toNat

/-- The document of a block's identifier. -/
def BlockId.toJson (id : BlockId) : Json :=
  .count id.index.toNat

/-- The document of a value's identifier. -/
def ValueId.toJson (id : ValueId) : Json :=
  .count id.index.toNat

/-- The document of an operand. -/
def Operand.toJson : Operand → Json
  | .const x => .object [("Const", .real x)]
  | .bool b => .object [("Bool", .bool b)]
  | .arg position => .object [("Arg", .count position)]
  | .result id => .object [("Inst", id.toJson)]

/-- The document of an operator. -/
def Arith.toJson : Arith → Json
  | .add => .string "Add"
  | .sub => .string "Sub"
  | .mul => .string "Mul"

/-- The document of a comparison. -/
def Comparison.toJson : Comparison → Json
  | .ult => .string "Ult"
  | .one => .string "One"

/-- The document of a type. -/
def ValueType.toJson : ValueType → Json
  | .double => .string "Double"
  | .bool => .string "Bool"

/-- The document of what an instruction computes. -/
def InstrKind.toJson : InstrKind → Json
  | .arith op lhs rhs =>
    variantToJson "Bin" [("op", op.toJson), ("lhs", lhs.toJson), ("rhs", rhs.toJson)]
  | .compare pred lhs rhs =>
    variantToJson "FCmp" [("pred", pred.toJson), ("lhs", lhs.toJson), ("rhs", rhs.toJson)]
  | .promote src => variantToJson "UiToFp" [("src", src.toJson)]
  | .call callee name args =>
    variantToJson "Call" [("callee", callee.toJson), ("name", .string name),
      ("args", .array (args.map Operand.toJson))]
  | .phi type incoming =>
    variantToJson "Phi" [("ty", type.toJson),
      ("incoming", .array (incoming.map fun edge => .array [edge.1.toJson, edge.2.toJson]))]

/-- The document of an instruction. -/
def Instr.toJson (i : Instr) : Json :=
  .object [("dest", i.dest.toJson), ("kind", i.kind.toJson)]

/-- The document of a terminator. -/
def Terminator.toJson : Terminator → Json
  | .jump target => variantToJson "Br" [("target", target.toJson)]
  | .branch cond thenBlock elseBlock =>
    variantToJson "CondBr" [("cond", cond.toJson), ("then_block", thenBlock.toJson),
      ("else_block", elseBlock.toJson)]
  | .ret value => variantToJson "Ret" [("value", value.toJson)]

/-- The document of a block. -/
def Block.toJson (b : Block) : Json :=
  .object [("id", b.id.toJson), ("label", .string b.label),
    ("instrs", .array (b.instrs.map Instr.toJson)),
    ("term", match b.term with | some term => term.toJson | none => .null)]

/--
The document of a function.  The counters are written as the identifiers that come next.
-/
def Function.toJson (f : Function) : Json :=
  .object [("id", f.id.toJson), ("name", .string f.name),
    ("params", .array (f.params.map Json.string)),
    ("blocks", .array (f.blocks.map Block.toJson)),
    ("next_value", (ValueId.ofCount f.nextValue).toJson),
    ("next_block", (BlockId.ofCount f.nextBlock).toJson)]

/-- The document of a module. -/
def Module.toJson (m : Module) : Json :=
  .object [("functions", .array (m.functions.map Function.toJson))]

end ScalarSsa
