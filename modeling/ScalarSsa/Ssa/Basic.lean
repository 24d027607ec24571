import ScalarSsa.Number.Layout

/-!
# Identifiers, types and operands

**Results.** Functions, blocks and values are named by identifiers of 32 bits.  A counter
says how many identifiers were issued, and the next one is the counter's low 32 bits
(`ofCount`): as long as fewer than `2 ^ 32` were issued, no identifier is issued twice.  An
`Operand` is a constant, a parameter or the result of an instruction.
-/

namespace ScalarSsa

/-- Names a function of a module. -/
structure FuncId where
  index : UInt32
  deriving DecidableEq, Repr, Inhabited

/-- Names a block of a function. -/
structure BlockId where
  index : UInt32
  deriving DecidableEq, Repr, Inhabited

/-- Names the result of an instruction of a function. -/
structure ValueId where
  index : UInt32
  deriving DecidableEq, Repr, Inhabited

/-- The identifier issued after `count` others. -/
def FuncId.ofCount (count : Nat) : FuncId :=
  ⟨count.toUInt32⟩

/-- The identifier issued after `count` others. -/
def BlockId.ofCount (count : Nat) : BlockId :=
  ⟨count.toUInt32⟩

/-- The identifier issued after `count` others. -/
def ValueId.ofCount (count : Nat) : ValueId :=
  ⟨count.toUInt32⟩

/-- The text of a function's identifier. -/
def FuncId.text (id : FuncId) : String :=
  "fn" ++ toString id.index.toNat

/-- The text of a block's identifier. -/
def BlockId.text (id : BlockId) : String :=
  "bb" ++ toString id.index.toNat

/-- The text of a value's identifier. -/
def ValueId.text (id : ValueId) : String :=
  "%" ++ toString id.index.toNat

/-- The two types of values. -/
inductive ValueType where
  | double
  | bool
  deriving DecidableEq, Repr, Inhabited

/-- The text of a type. -/
def ValueType.text : ValueType → String
  | .double => "double"
  | .bool => "i1"

/-- What an instruction works on. -/
inductive Operand where
  | const (x : Float)
  | bool (b : Bool)
  | arg (position : Nat)
  | result (id : ValueId)
  deriving DecidableEq, Repr, Inhabited

namespace Operand

/--
Two operands stand for the same value.  Constants are compared as doubles: the two zeros are
the same and a NaN is not even the same as itself.
-/
def same : Operand → Operand → Bool
  | .const x, .const y => x == y
  | .bool b, .bool c => b == c
  | .arg i, .arg j => i == j
  | .result v, .result w => v == w
  | _, _ => false

/-- The double of a constant. -/
def double? : Operand → Option Float
  | .const x => some x
  | _ => none

/-- The instruction result that an operand refers to. -/
def result? : Operand → Option ValueId
  | .result id => some id
  | _ => none

/-- The operand is a constant. -/
def isConstant : Operand → Bool
  | .const _ => true
  | .bool _ => true
  | _ => false

/-- The text of an operand. -/
def text : Operand → String
  | .const x => Number.Layout.code.write x
  | .bool b => toString b
  | .arg position => "%arg" ++ toString position
  | .result id => id.text

/-- The operand with every use of `source` replaced by `target`. -/
def replace (source target o : Operand) : Operand :=
  if o.same source then target else o

end Operand

end ScalarSsa
