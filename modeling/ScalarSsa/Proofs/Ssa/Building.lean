import ScalarSsa.Proofs.Effect
import ScalarSsa.Proofs.Ssa.Tables
import ScalarSsa.Ssa.Builder

/-!
# The operations of the builder

**Input.** A builder, with a function at its cursor or in its table.

**Definitions.** A `Site` is a function under construction with the block at whose end
instructions go.

**Results.** One equation for each operation: what it answers, and the
builder that it leaves.
-/

namespace ScalarSsa

/-! ## Modules with one function changed -/

namespace Module

variable {m : Module} {id : FuncId}

theorem mapFunction_mapFunction
    (change change' : Function → Function)
    (h : ∀ f, f.id = id → (change f).id = id) :
    (m.mapFunction id change).mapFunction id change' = m.mapFunction id fun f =>
      change' (change f) := by
  simp only [mapFunction, Module.mk.injEq, and_true]
  induction m.functions with
  | nil => rfl
  | cons f rest ih =>
      by_cases hf : f.id = id
      · simp [changeFirst, hf, h f hf]
      · simp [changeFirst, hf, ih]

end Module

/-! ## One block of a function changed -/

namespace Function

variable {f : Function}

/-- What a function keeps while its body is built: its names and its parameters. -/
def header (f : Function) : FuncId × String × List String :=
  (f.id, f.name, f.params)

theorem block?_mapBlock
    {id : BlockId}
    {change : Block → Block}
    (hid : ∀ b, (change b).id = b.id)
    (j : BlockId) :
    (f.mapBlock id change).block? j = if j = id then
      (f.block? j).map change else f.block? j := by
  have hkeep : ∀ b, (if b.id = id then change b else b).id = b.id := by
    intro b
    split
    · exact hid b
    · rfl
  rw [mapBlock, block?_mapBlocks hkeep]
  cases hb : f.block? j with
  | none => simp
  | some b =>
      have hbid : b.id = j := (mem_of_block?_eq_some hb).2
      by_cases hj : j = id <;> simp [hbid, hj]

theorem block?_appendBlock
    (label : String)
    (j : BlockId) :
    (f.appendBlock label).block? j =
      (f.block? j).or (if j = .ofCount f.nextBlock then
        some (.empty j label) else none) := by
  by_cases hj : j = .ofCount f.nextBlock
  · simp [block?, appendBlock, Block.empty, hj]
  · have hne : (BlockId.ofCount f.nextBlock == j) = false := by
      simpa using fun h => hj h.symm
    simp [block?, appendBlock, Block.empty, hj, hne]

theorem blockIds_appendBlock
    (f : Function)
    (label : String) :
    (f.appendBlock label).blockIds = f.blockIds ++ [.ofCount f.nextBlock] := by
  simp [blockIds, appendBlock, Block.empty]

theorem results_appendBlock
    (f : Function)
    (label : String) :
    (f.appendBlock label).results = f.results := by
  simp [results, instrs, appendBlock, Block.empty]

theorem blockIds_mapBlock
    {id : BlockId}
    {change : Block → Block}
    (hid : ∀ b, (change b).id = b.id) :
    (f.mapBlock id change).blockIds = f.blockIds := by
  refine blockIds_mapBlocks fun b => ?_
  split
  · exact hid b
  · rfl

end Function

theorem Block.id_insert
    (i : Instr)
    (b : Block) :
    (b.insert i).id = b.id := by
  unfold Block.insert
  split <;> rfl

/-! ## Sites -/

/-- A function under construction and the block at whose end instructions go. -/
structure Site where
  func : Function
  block : BlockId

namespace Site

/-- The name of the next result. -/
def next (s : Site) : ValueId :=
  .ofCount s.func.nextValue

/-- The name of a block that is still to be appended. -/
def fresh (s : Site) (offset : Nat) : BlockId :=
  .ofCount (s.func.nextBlock + offset)

/-- The site in another block. -/
def moveTo (s : Site) (block : BlockId) : Site :=
  ⟨s.func, block⟩

/-- The site with an instruction put in. -/
def push (s : Site) (kind : InstrKind) : Site :=
  ⟨s.func.issueValue.mapBlock s.block (Block.insert ⟨s.next, kind⟩), s.block⟩

/-- The site with its block ended. -/
def close (s : Site) (term : Terminator) : Site :=
  ⟨s.func.mapBlock s.block fun b => { b with term := some term }, s.block⟩

end Site

/-! ## Instructions and blocks -/

/-- Why a block of a function cannot take instructions. -/
def Function.openError? (f : Function) (id : BlockId) : Option InsertError :=
  match f.block? id with
  | none => some (.missingBlock id)
  | some b => if b.isTerminated then some (.terminated b.id b.label) else none

namespace Builder

variable {b : Builder} {cursor : Cursor} {f : Function}

theorem requireOpen_eq
    (f : Function)
    (id : BlockId) :
    requireOpen f id =
      match f.openError? id with
      | some e => throw e
      | none => pure () := by
  unfold requireOpen Function.openError?
  cases f.block? id with
  | none => rfl
  | some block => by_cases hterm : block.isTerminated = true <;> simp [hterm]

theorem run_currentFunction_unset
    (hcursor : b.cursor = none) :
    currentFunction.run.run b = (.error .noCursor, b) := by
  rw [currentFunction, run_bind_ok (run_get b)]
  simp only [hcursor]
  rfl

theorem run_currentFunction_missing
    (hcursor : b.cursor = some cursor)
    (hf : b.module.function? cursor.func = none) :
    currentFunction.run.run b = (.error (.missingFunction cursor.func), b) := by
  rw [currentFunction, run_bind_ok (run_get b)]
  simp only [hcursor, hf]
  rfl

theorem run_currentFunction
    (hcursor : b.cursor = some cursor)
    (hf : b.module.function? cursor.func = some f) :
    currentFunction.run.run b = (.ok (f, cursor.block), b) := by
  rw [currentFunction, run_bind_ok (run_get b)]
  simp only [hcursor, hf]
  rfl

theorem run_push
    (hcursor : b.cursor = some cursor)
    (hf : b.module.function? cursor.func = some f)
    (kind : InstrKind) :
    (push kind).run.run b =
      match f.openError? cursor.block with
      | some e => (.error e, b.mapFunction f.id Function.issueValue)
      | none =>
        (.ok (.result (.ofCount f.nextValue)),
          (b.mapFunction f.id Function.issueValue).mapFunction f.id
          fun f' =>
            f'.mapBlock cursor.block (Block.insert ⟨.ofCount f.nextValue, kind⟩)) := by
  rw [push, run_bind_ok (run_currentFunction hcursor hf)]
  simp only [requireOpen_eq]
  cases f.openError? cursor.block <;> rfl

theorem run_terminate
    (hcursor : b.cursor = some cursor)
    (hf : b.module.function? cursor.func = some f)
    (term : Terminator) :
    (terminate term).run.run b =
      match f.openError? cursor.block with
      | some e => (.error e, b)
      | none =>
        (.ok (), b.mapFunction f.id fun f => f.mapBlock cursor.block fun b =>
          { b with term := some term }) := by
  rw [terminate, run_bind_ok (run_currentFunction hcursor hf)]
  simp only [requireOpen_eq]
  cases f.openError? cursor.block <;> rfl

theorem run_appendBlock
    {id : FuncId}
    (hf : b.module.function? id = some f)
    (label : String) :
    ∃ text, (appendBlock id label).run.run b =
      (.ok (.ofCount f.nextBlock),
        (b.mapFunction id fun f => f.appendBlock label).note .trace .builder text) := by
  refine ⟨"appended block " ++ (BlockId.ofCount f.nextBlock).text ++ " (" ++ label ++
    ") to '" ++ f.name ++ "'", ?_⟩
  rw [appendBlock, run_bind_ok (run_get b)]
  simp only [hf]
  rfl

theorem run_call
    {callee : FuncId}
    (hf : b.module.function? callee = some f)
    (args : List Operand) :
    (call callee args).run.run b = (push (.call callee f.name args)).run.run b := by
  rw [call, run_bind_ok (run_get b)]
  simp only [hf]

/-! ## The table of functions -/

theorem run_declare?_taken
    {name : String}
    {id : FuncId}
    (h : b.module.find? name = some id)
    (params : List String) :
    (declare? name params).run b = (none, b) := by
  rw [declare?, run_stateGet_bind]
  simp only [h]
  rfl

theorem run_declare?_free
    {name : String}
    (h : b.module.find? name = none)
    (params : List String) :
    ∃ note, (declare? name params).run b =
      (some b.module.freshId,
        ⟨b.module.declare name params, b.cursor, .note note :: b.journal⟩) := by
  refine ⟨⟨.trace, .table, "declared function '" ++ name ++ "' as " ++
    b.module.freshId.text⟩, ?_⟩
  rw [declare?, run_stateGet_bind]
  simp only [h]
  rfl

theorem run_delete?
    {id : FuncId}
    (hf : b.module.function? id = some f) :
    ∃ note,
      (delete? id).run b =
        (some f, ⟨b.module.erase f, b.cursor, .note note :: b.journal⟩) := by
  refine ⟨⟨.trace, .table, "deleted function '" ++ f.name ++ "' (" ++ id.text ++ ")"⟩, ?_⟩
  change delete? id b = _
  simp only [delete?, modifyGet, MonadStateOf.modifyGet, StateT.modifyGet, hf]
  rfl

theorem run_delete?_missing
    {id : FuncId}
    (hf : b.module.function? id = none) :
    (delete? id).run b = (none, b) := by
  change delete? id b = _
  simp only [delete?, modifyGet, MonadStateOf.modifyGet, StateT.modifyGet, hf]
  rfl

end Builder

end ScalarSsa
