import ScalarSsa.Ssa.Instr

/-!
# Functions and blocks

**Results.** A `Function` holds its blocks in the order in which they were appended;
the first is the entry, and a function without blocks is a declaration.  Values and
blocks are numbered per function, and a number is not used again when an instruction or
a block is removed.
-/

namespace ScalarSsa

/-- A sequence of instructions that runs from its start to its terminator. -/
structure Block where
  id : BlockId
  label : String
  instrs : List Instr
  term : Option Terminator
  deriving DecidableEq, Repr, Inhabited

namespace Block

/-- A block with nothing in it. -/
def empty (id : BlockId) (label : String) : Block :=
  ⟨id, label, [], none⟩

/-- The block has a terminator. -/
def isTerminated (b : Block) : Bool :=
  b.term.isSome

/-- The blocks that may run next, each once. -/
def successors (b : Block) : List BlockId :=
  match b.term with
  | some term => term.successors
  | none => []

/-- The phis at the start. -/
def phis (b : Block) : List Instr :=
  b.instrs.takeWhile fun i => i.kind.isPhi

/-- The instructions after the phis at the start. -/
def body (b : Block) : List Instr :=
  b.instrs.dropWhile fun i => i.kind.isPhi

/--
The block with an instruction put in: a phi behind the phis at the start,
any other at the end.
-/
def insert (i : Instr) (b : Block) : Block :=
  if i.kind.isPhi then { b with instrs := b.phis ++ i :: b.body }
  else { b with instrs := b.instrs ++ [i] }

/-- The block with a function applied to each operand. -/
def mapOperands (f : Operand → Operand) (b : Block) : Block :=
  { b with
    instrs := b.instrs.map fun i => { i with kind := i.kind.mapOperands f }
    term := b.term.map (Terminator.mapOperands f) }

/-- The block with a function applied to the incoming edges of each phi. -/
def mapIncoming (f : List (Operand × BlockId) → List (Operand × BlockId))
    (b : Block) : Block :=
  { b with instrs := b.instrs.map fun i => { i with kind := i.kind.mapIncoming f } }

/-- The operands of the terminator. -/
def termOperands (b : Block) : List Operand :=
  match b.term with
  | some term => term.operands
  | none => []

end Block

/-- A function of a module. -/
structure Function where
  id : FuncId
  name : String
  params : List String
  blocks : List Block
  /-- The number of values issued. -/
  nextValue : Nat
  /-- The number of blocks issued. -/
  nextBlock : Nat
  deriving DecidableEq, Repr, Inhabited

namespace Function

/-- A function without a body. -/
def declaration (id : FuncId) (name : String) (params : List String) : Function :=
  ⟨id, name, params, [], 0, 0⟩

/-- The number of parameters. -/
def arity (f : Function) : Nat :=
  f.params.length

/-- The function has blocks. -/
def hasBody (f : Function) : Bool :=
  !f.blocks.isEmpty

/-- The block that runs first. -/
def entry? (f : Function) : Option BlockId :=
  f.blocks.head?.map (·.id)

/-- The names of the blocks in order. -/
def blockIds (f : Function) : List BlockId :=
  f.blocks.map (·.id)

/-- The block of a name. -/
def block? (f : Function) (id : BlockId) : Option Block :=
  f.blocks.find? fun b => b.id == id

/-- All instructions in order. -/
def instrs (f : Function) : List Instr :=
  f.blocks.flatMap (·.instrs)

/-- The number of instructions. -/
def instrCount (f : Function) : Nat :=
  f.instrs.length

/-- The function with every block changed. -/
def mapBlocks (f : Function) (change : Block → Block) : Function :=
  { f with blocks := f.blocks.map change }

/-- The function with one block changed. -/
def mapBlock (f : Function) (id : BlockId) (change : Block → Block) : Function :=
  f.mapBlocks fun b => if b.id = id then change b else b

/-- The function with an empty block at its end. -/
def appendBlock (f : Function) (label : String) : Function :=
  { f with
    blocks := f.blocks ++ [.empty (.ofCount f.nextBlock) label]
    nextBlock := f.nextBlock + 1 }

/-- The function without a block. -/
def eraseBlock (f : Function) (id : BlockId) : Function :=
  { f with blocks := f.blocks.filter fun b => b.id != id }

/-- The function without the instructions of a result. -/
def eraseResult (f : Function) (id : ValueId) : Function :=
  f.mapBlocks fun b => { b with instrs := b.instrs.filter fun i => i.dest != id }

/-- The function with one more value issued. -/
def issueValue (f : Function) : Function :=
  { f with nextValue := f.nextValue + 1 }

/-- The function as a declaration again. -/
def clearBody (f : Function) : Function :=
  { f with blocks := [], nextValue := 0, nextBlock := 0 }

/--
The first block among some that defines a value, with the place of the instruction in it.
-/
def findDefinition (id : ValueId) : List Block → Option (BlockId × Nat)
  | [] => none
  | b :: rest =>
    match b.instrs.findIdx? fun i => i.dest == id with
    | some place => some (b.id, place)
    | none => findDefinition id rest

/-- The block that defines a value and the place of the instruction in it. -/
def definition? (f : Function) (id : ValueId) : Option (BlockId × Nat) :=
  findDefinition id f.blocks

/-- The instruction that defines a value. -/
def instr? (f : Function) (id : ValueId) : Option Instr :=
  f.instrs.find? fun i => i.dest == id

/-- The type of an operand; a parameter or a result that does not exist has none. -/
def typeOf? (f : Function) : Operand → Option ValueType
  | .const _ => some .double
  | .bool _ => some .bool
  | .arg position => if position < f.arity then some .double else none
  | .result id => (f.instr? id).map fun i => i.kind.type

/-- The blocks that may run next after a block. -/
def successors (f : Function) (id : BlockId) : List BlockId :=
  match f.block? id with
  | some b => b.successors
  | none => []

/-- The blocks after which a block may run, in order. -/
def predecessors (f : Function) (id : BlockId) : List BlockId :=
  (f.blocks.filter fun b => b.successors.contains id).map (·.id)

/-- The function with every use of an operand replaced. -/
def replaceUses (f : Function) (source target : Operand) : Function :=
  f.mapBlocks (Block.mapOperands (Operand.replace source target))

/--
The function with the edges of a block's phis that come from `source` coming from `target`.
-/
def retargetEdges (f : Function) (id source target : BlockId) : Function :=
  f.mapBlock id (Block.mapIncoming fun incoming =>
    incoming.map fun edge => (edge.1, if edge.2 = source then target else edge.2))

/-- The function with the edges of a block's phis that come from `pred` removed. -/
def dropEdges (f : Function) (id pred : BlockId) : Function :=
  f.mapBlock id (Block.mapIncoming fun incoming =>
    incoming.filter fun edge => edge.2 != pred)

end Function

end ScalarSsa
