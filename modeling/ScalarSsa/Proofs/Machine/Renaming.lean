import ScalarSsa.Proofs.Machine.Runs
import ScalarSsa.Proofs.Pass.Equivariance

/-!
# Runs under other identifiers

**Input.** Two modules, and other identifiers under which the second has the
functions of the first.

**Definitions.** `ExecFault.rename` renames the function that a fault mentions.  A
computation is `Local` if its fault mentions none: all that happens inside a block is, apart
from the calls.

**Results.** `agree_call`: a call in one module and the call of the renamed function in the
other take the same steps, make the same host calls and give the same value, or the same
fault with the function in it renamed.
-/

namespace ScalarSsa

/-- The fault with the function that it mentions renamed. -/
def ExecFault.rename (ρ : FuncId → FuncId) : ExecFault → ExecFault
  | .missingFunction id => .missingFunction (ρ id)
  | e => e

namespace Machine

variable (ρ : FuncId → FuncId)

/-! ## Faults inside a block -/

/-- There is nothing to rename in the fault of a computation, if it has one. -/
def Local {α : Type} (x : Except ExecFault α) : Prop :=
  ∀ e, x = .error e → e.rename ρ = e

section Local

variable {ρ} {α β : Type}

theorem local_ok
    (a : α) :
    Local ρ (.ok a : Except ExecFault α) := by
  intro e h
  cases h

theorem local_error
    {e : ExecFault}
    (h : e.rename ρ = e) :
    Local ρ (.error e : Except ExecFault α) := by
  rintro _ ⟨⟩
  exact h

theorem Local.bind
    {x : Except ExecFault α}
    {next : α → Except ExecFault β}
    (h : Local ρ x)
    (hnext : ∀ a, Local ρ (next a)) :
    Local ρ (x >>= next) := by
  cases x with
  | error e => exact local_error (h e rfl)
  | ok a => exact hnext a

variable (frame : Frame)

theorem local_read
    (o : Operand) :
    Local ρ (frame.read o) := by
  cases o with
  | const x => exact local_ok _
  | bool b => exact local_ok _
  | arg position =>
      simp only [Frame.read]
      cases frame.args[position]? with
      | some x => exact local_ok _
      | none => exact local_error rfl
  | result id =>
      simp only [Frame.read]
      cases frame.results.lookup id with
      | some d => exact local_ok _
      | none => exact local_error rfl

theorem local_readDouble
    (o : Operand) :
    Local ρ (frame.readDouble o) := by
  refine (local_read frame o).bind fun d => ?_
  cases d with
  | double x => exact local_ok _
  | bool b => exact local_error rfl

theorem local_readBool
    (o : Operand) :
    Local ρ (frame.readBool o) := by
  refine (local_read frame o).bind fun d => ?_
  cases d with
  | double x => exact local_error rfl
  | bool b => exact local_ok _

theorem local_readDoubles
    (operands : List Operand) :
    Local ρ (frame.readDoubles operands) := by
  unfold Frame.readDoubles
  induction operands with
  | nil => exact local_ok _
  | cons o operands ih =>
      rw [List.mapM_cons]
      exact (local_readDouble frame o).bind fun _ => ih.bind fun _ => local_ok _

theorem local_request
    (i : Instr) :
    Local ρ (frame.request i) := by
  unfold Frame.request
  cases i.kind with
  | arith op lhs rhs =>
      exact (local_readDouble frame lhs).bind fun _ =>
        (local_readDouble frame rhs).bind fun _ => local_ok _
  | compare pred lhs rhs =>
      exact (local_readDouble frame lhs).bind fun _ =>
        (local_readDouble frame rhs).bind fun _ => local_ok _
  | promote src => exact (local_readBool frame src).bind fun _ => local_ok _
  | call callee name args => exact (local_readDoubles frame args).bind fun _ => local_ok _
  | phi type incoming => exact local_error rfl

theorem local_readPhi
    (prev : Option BlockId)
    (phi : ValueId)
    (incoming : List (Operand × BlockId)) :
    Local ρ (readPhi frame prev phi incoming) := by
  cases prev with
  | none => exact local_error rfl
  | some pred =>
      simp only [readPhi]
      cases incoming.find? fun edge => edge.2 == pred with
      | none => exact local_error rfl
      | some edge => exact local_read frame edge.1

theorem local_readPhis
    (prev : Option BlockId)
    (instrs : List Instr) :
    Local ρ (readPhis frame prev instrs) := by
  induction instrs with
  | nil => exact local_ok _
  | cons i rest ih =>
      unfold readPhis
      split
      · exact (local_readPhi frame prev _ _).bind fun _ => ih.bind fun _ => local_ok _
      · exact ih

theorem local_enter
    (prev : Option BlockId)
    (b : Block) :
    Local ρ (enter frame prev b) :=
  (local_readPhis frame prev b.phis).bind fun _ => local_ok _

theorem local_runTerm
    (f : Function)
    (b : Block) :
    Local ρ (runTerm frame f b) := by
  unfold runTerm
  split
  · exact local_ok _
  · exact (local_readBool frame _).bind fun _ => local_ok _
  · exact (local_readDouble frame _).bind fun _ => local_ok _
  · exact local_error rfl

end Local

/-! ## Inside a block -/

/-- The request with the function that it calls renamed. -/
def Request.rename : Request → Request
  | .value d => .value d
  | .call callee args => .call (ρ callee) args

theorem request_rename
    (frame : Frame)
    (i : Instr) :
    frame.request (i.rename ρ) = (frame.request i).map (Request.rename ρ) := by
  unfold Frame.request
  rw [Instr.kind_rename]
  cases i.kind with
  | arith op lhs rhs =>
      simp only [InstrKind.rename]
      cases frame.readDouble lhs with
      | error e => rfl
      | ok x => cases frame.readDouble rhs <;> rfl
  | compare pred lhs rhs =>
      simp only [InstrKind.rename]
      cases frame.readDouble lhs with
      | error e => rfl
      | ok x => cases frame.readDouble rhs <;> rfl
  | promote src =>
      simp only [InstrKind.rename]
      cases frame.readBool src <;> rfl
  | call callee name args =>
      simp only [InstrKind.rename]
      cases frame.readDoubles args <;> rfl
  | phi type incoming => rfl

theorem readPhis_rename
    (frame : Frame)
    (prev : Option BlockId)
    (instrs : List Instr) :
    readPhis frame prev (instrs.map (Instr.rename ρ)) = readPhis frame prev instrs := by
  induction instrs with
  | nil => rfl
  | cons i rest ih =>
      rw [List.map_cons, readPhis, readPhis, Instr.kind_rename, Instr.dest_rename, ih]
      cases i.kind <;> rfl

theorem enter_rename
    (frame : Frame)
    (prev : Option BlockId)
    (b : Block) :
    enter frame prev (b.rename ρ) = enter frame prev b := by
  rw [enter, enter, Block.phis_rename, readPhis_rename]

/-! ## Two runs in step -/

/-- A run that mentions no function in its faults agrees with itself. -/
theorem agree_self
    {α : Type}
    {x : Exec α}
    {p : Progress}
    (h : Local ρ (x.run.run p).1) :
    Agree (ExecFault.rename ρ) Eq x p x p Eq := by
  rcases hrun : x.run.run p with ⟨e | a, q⟩
  · rw [hrun] at h
    exact ⟨_, _, q, q, hrun, hrun, rfl, .error_self (h e rfl)⟩
  · exact ⟨_, _, q, q, hrun, hrun, rfl, .ok rfl⟩

theorem agree_fault
    {e : ExecFault}
    (h : e.rename ρ = e)
    (p : Progress) :
    Agree (ExecFault.rename ρ) Eq (throw e : Exec Float) p (throw e) p Eq :=
  agree_self ρ (local_error h)

theorem agree_tick
    (limits : Limits)
    (p : Progress) :
    Agree (ExecFault.rename ρ) Eq (tick limits) p (tick limits) p Eq := by
  refine agree_self ρ ?_
  rw [run_tick]
  split
  · exact local_error rfl
  · exact local_ok _

theorem agree_callHost
    (call : HostCall)
    (p : Progress) :
    Agree (ExecFault.rename ρ) Eq (callHost call) p (callHost call) p Eq := by
  refine agree_self ρ ?_
  rw [run_callHost]
  cases call.result with
  | error e => exact local_error rfl
  | ok x => exact local_ok _

section Body

variable {ρ} {limits : Limits} {call call' : FuncId → List Float → Exec Float}
  {f : Function}
variable (hcall : ∀ id args p,
  Agree (ExecFault.rename ρ) Eq (call id args) p (call' (ρ id) args) p Eq)

include hcall

/-- The rest of a block runs in step, if the blocks after it do. -/
theorem agree_runInside
    {fuel : Nat}
    (hfrom : ∀ frame prev id p,
      Agree (ExecFault.rename ρ) Eq (runFrom limits call f fuel frame prev id) p
      (runFrom limits call' (f.rename ρ) fuel frame prev id) p Eq)
    (frame : Frame)
    (b : Block)
    (rest : List Instr)
    (p : Progress) :
    Agree (ExecFault.rename ρ) Eq (runInside limits call f fuel frame b rest) p
      (runInside limits call' (f.rename ρ) fuel frame (b.rename ρ)
        (rest.map (Instr.rename ρ))) p Eq := by
  induction rest generalizing frame p with
  | nil =>
      rw [List.map_nil, runInside_nil, runInside_nil]
      refine (agree_tick ρ limits p).bind_eq ?_
      rintro - q _ rfl
      have hterm : runTerm frame (f.rename ρ) (b.rename ρ) = runTerm frame f b := rfl
      rw [hterm]
      cases hend : runTerm frame f b with
      | error e => exact agree_fault ρ (local_runTerm frame f b e hend) q
      | ok next =>
          cases next with
          | done x => exact .pure rfl rfl
          | goTo target => exact hfrom frame (some b.id) target q
  | cons i rest ih =>
      rw [List.map_cons, runInside_cons, runInside_cons, request_rename]
      refine (agree_tick ρ limits p).bind_eq ?_
      rintro - q _ rfl
      cases hrequest : frame.request i with
      | error e => exact agree_fault ρ (local_request frame i e hrequest) q
      | ok request =>
          cases request with
          | value d => exact ih (frame.set i.dest d) q
          | call callee args =>
              refine (hcall callee args q).bind_eq ?_
              rintro x q' _ rfl
              exact ih (frame.set i.dest (.double x)) q'

theorem agree_runFrom
    (fuel : Nat)
    (frame : Frame)
    (prev : Option BlockId)
    (id : BlockId)
    (p : Progress) :
    Agree (ExecFault.rename ρ) Eq (runFrom limits call f fuel frame prev id) p
      (runFrom limits call' (f.rename ρ) fuel frame prev id) p Eq := by
  induction fuel generalizing frame prev id p with
  | zero => exact agree_fault ρ rfl p
  | succ fuel ih =>
      rw [runFrom_succ, runFrom_succ, Function.block?_rename]
      cases f.block? id with
      | none => exact agree_fault ρ rfl p
      | some b =>
          rw [Option.map_some]
          dsimp only
          rw [enter_rename, Block.body_rename]
          cases henter : enter frame prev b with
          | error e => exact agree_fault ρ (local_enter frame prev b e henter) p
          | ok entered => exact agree_runInside hcall ih entered b b.body p

end Body

section Module

variable {ρ} {m m' : Module}
  (hmodule : ∀ g, m'.function? (ρ g) = (m.function? g).map (Function.rename ρ))

include hmodule

theorem agree_callAt
    (limits : Limits)
    (remaining : Nat)
    (id : FuncId)
    (args : List Float)
    (p : Progress) :
    Agree (ExecFault.rename ρ) Eq (callAt m limits remaining id args) p
      (callAt m' limits remaining (ρ id) args) p
      Eq := by
  induction remaining generalizing id args p with
  | zero => exact agree_fault ρ rfl p
  | succ remaining ih =>
      rw [callAt, callAt, hmodule]
      cases m.function? id with
      | none => exact .throw (ExecFault.missingFunction id) rfl
      | some f =>
          rw [Option.map_some]
          dsimp only
          rw [Function.arity_rename, Function.entry?_rename, Function.name_rename]
          split
          · cases f.entry? with
            | none => exact agree_callHost ρ ⟨f.name, args⟩ p
            | some entry =>
                exact agree_runFrom ih (limits.steps + 1) ⟨args, []⟩ none entry p
          · exact agree_fault ρ rfl p

/-- A call ends alike in a module that has the functions under other identifiers. -/
theorem agree_call
    (limits : Limits)
    (id : FuncId)
    (args : List Float)
    (p : Progress) :
    Agree (ExecFault.rename ρ) Eq (call m limits id args) p
      (call m' limits (ρ id) args) p Eq :=
  agree_callAt hmodule limits limits.depth id args p

end Module

end Machine
end ScalarSsa
