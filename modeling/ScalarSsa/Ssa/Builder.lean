import ScalarSsa.Ssa.Module
import ScalarSsa.Report.Journal

/-!
# Building functions

**Input.** A module and a cursor that names the block at whose end instructions are put.

**Algorithm.** Every operation works on the builder's state.  An operation that fails
leaves blocks and cursor as they were; only the number of the value that it would have
defined is used up.

**Results.** Instructions go only into existing blocks that have no terminator yet, and phis
stay together at the start of their block.
-/

namespace ScalarSsa

/-- The end of a block of a function. -/
structure Cursor where
  func : FuncId
  block : BlockId
  deriving DecidableEq, Repr, Inhabited

/-- The text of a cursor. -/
def Cursor.text (c : Cursor) : String :=
  c.func.text ++ ":" ++ c.block.text

/-- Why nothing can be put in where it was asked for. -/
inductive InsertError where
  | noCursor
  | missingFunction (id : FuncId)
  | missingBlock (id : BlockId)
  | terminated (id : BlockId) (label : String)
  | appendToMissing (id : FuncId)
  | missingCallee (id : FuncId)
  deriving DecidableEq, Repr, Inhabited

/-- The wording of an insertion error. -/
def InsertError.message : InsertError → String
  | .noCursor => "no insertion point is set"
  | .missingFunction id => "insertion function " ++ id.text ++ " does not exist"
  | .missingBlock id => "insertion block " ++ id.text ++ " does not exist"
  | .terminated id label =>
    "block " ++ id.text ++ " (" ++ label ++ ") is already terminated"
  | .appendToMissing id => "cannot append block to missing function " ++ id.text
  | .missingCallee id => "call to missing function " ++ id.text

/-- A module under construction. -/
structure Builder where
  module : Module
  cursor : Option Cursor
  journal : Journal
  deriving DecidableEq, Repr, Inhabited

/-- An operation on a builder that may fail. -/
abbrev Build := ExceptT InsertError (StateM Builder)

namespace Builder

/-- A builder that has done nothing yet. -/
def empty : Builder :=
  ⟨.empty, none, []⟩

/-- The builder with an event in its journal. -/
def record (e : Event) (b : Builder) : Builder :=
  { b with journal := e :: b.journal }

/-- The builder with a note in its journal. -/
def note (detail : Detail) (topic : Topic) (text : String) (b : Builder) : Builder :=
  b.record (.note ⟨detail, topic, text⟩)

/-- The builder with a function changed. -/
def mapFunction (id : FuncId) (change : Function → Function) (b : Builder) : Builder :=
  { b with module := b.module.mapFunction id change }

/-! ## The module and the cursor -/

/-- Declares a function under a name that is free. -/
def declare (name : String) (params : List String) : StateM Builder FuncId :=
  modifyGet fun b =>
    let id := b.module.freshId
    (id, { b with module := b.module.declare name params }.note .trace .table
      ("declared function '" ++ name ++ "' as " ++ id.text))

/-- Declares a function, unless its name is taken. -/
def declare? (name : String) (params : List String) : StateM Builder (Option FuncId) := do
  match (← get).module.find? name with
  | some _ => return none
  | none => return some (← declare name params)

/-- Deletes a function and gives it back, if there is one. -/
def delete? (id : FuncId) : StateM Builder (Option Function) :=
  modifyGet fun b =>
    match b.module.function? id with
    | none => (none, b)
    | some f => (some f, { b with module := b.module.erase f }.note .trace .table
        ("deleted function '" ++ f.name ++ "' (" ++ id.text ++ ")"))

/-- Moves the cursor to the end of a block. -/
def moveTo (func : FuncId) (block : BlockId) : StateM Builder Unit :=
  modify fun b => { b with cursor := some ⟨func, block⟩ }

/-- Unsets the cursor. -/
def clearCursor : StateM Builder Unit :=
  modify fun b => { b with cursor := none }

/-- Appends an empty block to a function. -/
def appendBlock (func : FuncId) (label : String) : Build BlockId := do
  match (← get).module.function? func with
  | none => throw (.appendToMissing func)
  | some f =>
    let id := BlockId.ofCount f.nextBlock
    modify fun b => (b.mapFunction func fun f => f.appendBlock label).note .trace .builder
      ("appended block " ++ id.text ++ " (" ++ label ++ ") to '" ++ f.name ++ "'")
    return id

/-! ## Instructions -/

/-- The function at the cursor and the name of the cursor's block. -/
def currentFunction : Build (Function × BlockId) := do
  let b ← get
  match b.cursor with
  | none => throw .noCursor
  | some cursor =>
    match b.module.function? cursor.func with
    | none => throw (.missingFunction cursor.func)
    | some f => return (f, cursor.block)

/-- The block exists and can still take instructions. -/
def requireOpen (f : Function) (id : BlockId) : Build Unit :=
  match f.block? id with
  | none => throw (.missingBlock id)
  | some block =>
    if block.isTerminated then throw (.terminated block.id block.label) else return ()

/-- Puts an instruction in at the cursor. -/
def push (kind : InstrKind) : Build Operand := do
  let (f, block) ← currentFunction
  let dest := ValueId.ofCount f.nextValue
  modify (mapFunction f.id Function.issueValue)
  requireOpen f block
  modify (mapFunction f.id fun f => f.mapBlock block (Block.insert ⟨dest, kind⟩))
  return .result dest

/-- Ends the block at the cursor. -/
def terminate (term : Terminator) : Build Unit := do
  let (f, block) ← currentFunction
  requireOpen f block
  modify (mapFunction f.id fun f => f.mapBlock block fun b => { b with term := some term })

/-- Puts in an arithmetic operation. -/
def arith (op : Arith) (lhs rhs : Operand) : Build Operand :=
  push (.arith op lhs rhs)

/-- Puts in a comparison. -/
def compare (pred : Comparison) (lhs rhs : Operand) : Build Operand :=
  push (.compare pred lhs rhs)

/-- Puts in the promotion of a truth value. -/
def promote (src : Operand) : Build Operand :=
  push (.promote src)

/-- Puts in the comparison `lhs < rhs` as a double. -/
def lessThan (lhs rhs : Operand) : Build Operand := do
  promote (← compare .ult lhs rhs)

/-- Puts in a call. -/
def call (callee : FuncId) (args : List Operand) : Build Operand := do
  match (← get).module.function? callee with
  | none => throw (.missingCallee callee)
  | some f => push (.call callee f.name args)

/-- Puts in a phi. -/
def phi (type : ValueType) (incoming : List (Operand × BlockId)) : Build Operand :=
  push (.phi type incoming)

/-- Ends the block with a jump. -/
def jump (target : BlockId) : Build Unit :=
  terminate (.jump target)

/-- Ends the block with a branch. -/
def branch (cond : Operand) (thenBlock elseBlock : BlockId) : Build Unit :=
  terminate (.branch cond thenBlock elseBlock)

/-- Ends the block with a return. -/
def ret (value : Operand) : Build Unit :=
  terminate (.ret value)

end Builder

end ScalarSsa
