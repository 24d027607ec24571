import ScalarSsa.Ssa.Module
import ScalarSsa.Machine.Fault

/-!
# Running functions

**Input.** A module, limits, and a function with its arguments.

**Algorithm.** A function runs block by block.  All phis at the start of a block read the
values that belong to the block that ran before, and only then take their own.  Every other
instruction and every terminator counts as one step.  A function without a body is a call of
the host.  Steps are counted in natural numbers: what words would count is the same as long
as the limit and the count before the call are below the largest word.

**Results.** A call gives a double or a fault.  The number of open calls bounds the
recursion, and since every block that runs takes at least one step, the number of steps
bounds the jumps.
-/

namespace ScalarSsa
namespace Machine

/-- How deep calls may nest and how many steps may be taken. -/
structure Limits where
  depth : Nat
  steps : Nat
  deriving DecidableEq, Repr, Inhabited

/-- The steps taken and the host calls made so far, the newest first. -/
structure Progress where
  steps : Nat
  hostCalls : List HostCall
  deriving DecidableEq, Repr, Inhabited

/-- A run that may end early. -/
abbrev Exec := ExceptT ExecFault (StateM Progress)

/-- A value at run time. -/
inductive Datum where
  | double (x : Float)
  | bool (b : Bool)
  deriving DecidableEq, Repr, Inhabited

/-- The arguments of a call and the results computed in it. -/
structure Frame where
  args : List Float
  results : List (ValueId × Datum)
  deriving DecidableEq, Repr, Inhabited

namespace Frame

/-- The frame with a result. -/
def set (frame : Frame) (id : ValueId) (d : Datum) : Frame :=
  { frame with results := (id, d) :: frame.results.filter fun entry => entry.1 != id }

/-- The value of an operand. -/
def read (frame : Frame) : Operand → Except ExecFault Datum
  | .const x => .ok (.double x)
  | .bool b => .ok (.bool b)
  | .arg position =>
    match frame.args[position]? with
    | some x => .ok (.double x)
    | none => .error (.missingArgument position)
  | .result id =>
    match frame.results.lookup id with
    | some d => .ok d
    | none => .error (.notComputed id)

/-- The double that an operand stands for. -/
def readDouble (frame : Frame) (operand : Operand) : Except ExecFault Float := do
  match ← frame.read operand with
  | .double x => return x
  | .bool _ => throw (.notDouble operand)

/-- The doubles that operands stand for, up to the first fault. -/
def readDoubles (frame : Frame) (operands : List Operand) : Except ExecFault (List Float) :=
  operands.mapM frame.readDouble

/-- The truth value that an operand stands for. -/
def readBool (frame : Frame) (operand : Operand) : Except ExecFault Bool := do
  match ← frame.read operand with
  | .bool b => return b
  | .double _ => throw (.notBool operand)

end Frame

/-- Takes a step, unless there have been too many. -/
def tick (limits : Limits) : Exec Unit := do
  modify fun p => { p with steps := p.steps + 1 }
  if limits.steps < (← get).steps then throw (.stepLimit limits.steps)

/-- Calls the host. -/
def callHost (call : HostCall) : Exec Float := do
  modify fun p => { p with hostCalls := call :: p.hostCalls }
  match call.result with
  | .ok x => return x
  | .error fault => throw (.host fault)

/-- The value of a phi after a block. -/
def readPhi (frame : Frame) (prev : Option BlockId) (phi : ValueId)
    (incoming : List (Operand × BlockId)) :
    Except ExecFault Datum :=
  match prev with
  | none => .error .phiAtEntry
  | some pred =>
    match incoming.find? fun edge => edge.2 == pred with
    | some (operand, _) => frame.read operand
    | none => .error (.missingEdge phi pred)

/-- The values of phis after a block, all read from the same frame. -/
def readPhis (frame : Frame) (prev : Option BlockId) :
    List Instr → Except ExecFault (List (ValueId × Datum))
  | [] => .ok []
  | i :: rest =>
    match i.kind with
    | .phi _ incoming => do
      let d ← readPhi frame prev i.dest incoming
      let others ← readPhis frame prev rest
      return (i.dest, d) :: others
    | _ => readPhis frame prev rest

/-- The frame after the phis of a block. -/
def enter (frame : Frame) (prev : Option BlockId) (b : Block) : Except ExecFault Frame := do
  let values ← readPhis frame prev b.phis
  return values.foldl (fun frame (id, d) => frame.set id d) frame

/-- The value of an instruction, given how functions are called. -/
def evaluate (call : FuncId → List Float → Exec Float) (frame : Frame) (i : Instr) :
    Exec Datum := do
  match i.kind with
  | .arith op lhs rhs =>
    let x ← frame.readDouble lhs
    let y ← frame.readDouble rhs
    return .double (op.apply x y)
  | .compare pred lhs rhs =>
    let x ← frame.readDouble lhs
    let y ← frame.readDouble rhs
    return .bool (pred.holds x y)
  | .promote src =>
    let b ← frame.readBool src
    return .double (if b then 1.0 else 0.0)
  | .call callee _ args =>
    let values ← frame.readDoubles args
    return .double (← call callee values)
  | .phi .. => throw (.latePhi i.dest)

/-- Runs instructions one after the other. -/
def runInstrs (limits : Limits) (call : FuncId → List Float → Exec Float) (frame : Frame) :
    List Instr → Exec Frame
  | [] => return frame
  | i :: rest => do
    tick limits
    let d ← evaluate call frame i
    runInstrs limits call (frame.set i.dest d) rest

/-- What a block does when it ends: the function goes on in another block or returns. -/
inductive Next where
  | goTo (block : BlockId)
  | done (x : Float)
  deriving DecidableEq, Repr, Inhabited

/-- What a block does when it ends. -/
def runTerm (frame : Frame) (f : Function) (b : Block) : Except ExecFault Next := do
  match b.term with
  | some (.jump target) => return .goTo target
  | some (.branch cond thenBlock elseBlock) =>
    return .goTo (if ← frame.readBool cond then thenBlock else elseBlock)
  | some (.ret value) => return .done (← frame.readDouble value)
  | none => throw (.noTerminator b.id f.name)

/-- Runs a block that is reached from `prev`. -/
def runBlock (limits : Limits) (call : FuncId → List Float → Exec Float)
    (f : Function) (frame : Frame)
    (prev : Option BlockId) (b : Block) : Exec (Frame × Next) := do
  let entered ← enter frame prev b
  let after ← runInstrs limits call entered b.body
  tick limits
  return (after, ← runTerm after f b)

/-- Runs a function from a block on, for at most `fuel` blocks. -/
def runFrom (limits : Limits) (call : FuncId → List Float → Exec Float) (f : Function) :
    (fuel : Nat) → Frame → Option BlockId → BlockId → Exec Float
  | 0, _, _, _ => throw (.stepLimit limits.steps)
  | fuel + 1, frame, prev, current => do
    match f.block? current with
    | none => throw (.missingBlock f.name current)
    | some b =>
      match ← runBlock limits call f frame prev b with
      | (_, .done x) => return x
      | (after, .goTo target) => runFrom limits call f fuel after (some current) target

/-- Calls a function with `remaining` more calls that may be open at once. -/
def callAt (m : Module) (limits : Limits) :
    (remaining : Nat) → FuncId → List Float → Exec Float
  | 0, _, _ => throw (.depthLimit limits.depth)
  | remaining + 1, id, args =>
    match m.function? id with
    | none => throw (.missingFunction id)
    | some f =>
      if f.arity = args.length then
        match f.entry? with
        | none => callHost ⟨f.name, args⟩
        | some entry =>
          runFrom limits (fun id args => callAt m limits remaining id args) f
            (limits.steps + 1) ⟨args, []⟩ none entry
      else throw (.wrongCount f.name f.arity args.length)

/-- Calls a function. -/
def call (m : Module) (limits : Limits) (id : FuncId) (args : List Float) : Exec Float :=
  callAt m limits limits.depth id args

/-- Calls the function of a name. -/
def callNamed (m : Module) (limits : Limits) (name : String) (args : List Float) :
    Exec Float :=
  match m.find? name with
  | none => throw (.unknownName name)
  | some id => call m limits id args

end Machine
end ScalarSsa
