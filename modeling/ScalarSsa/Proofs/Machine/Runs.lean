import ScalarSsa.Machine.Run
import Mathlib.Data.List.Basic

/-!
# Runs as a relation

**Input.** A function, and a relation that says how calls of other functions can end.

**Definitions.** `Runs` has a rule for every way in which a run can go on from a `Point`.
It knows no step limit and no fuel: an `Ending` holds the steps that the run takes.  `Calls`
ties the relation to a module and to the number of calls that may still be open.

**Results.** `Calls.realises`: if the steps stay within the limit, the machine ends as the
relation says, and otherwise with the step limit.  `reflects_callAt`: whenever the machine
ends otherwise than with the step limit, the relation holds of how it ended.
-/

namespace ScalarSsa
namespace Machine

/--
How a run ends: the steps it takes, the host calls it makes, the newest
first, and its result.
-/
structure Ending where
  steps : Nat
  calls : List HostCall
  result : Except ExecFault Float

/-- The ending of a run that goes on after `steps` steps and some host calls. -/
def Ending.after (o : Ending) (steps : Nat) (calls : List HostCall) : Ending :=
  ⟨steps + o.steps, o.calls ++ calls, o.result⟩

theorem Ending.after_after
    (o : Ending)
    (n m : Nat)
    (c d : List HostCall) :
    (o.after n c).after m d = o.after (m + n) (c ++ d) := by
  simp [Ending.after, Nat.add_assoc]

/-- The progress at an ending. -/
def Progress.at (p : Progress) (o : Ending) : Progress :=
  ⟨p.steps + o.steps, o.calls ++ p.hostCalls⟩

/-- What an instruction asks for: it has a value, or a call has to be made for it. -/
inductive Request where
  | value (d : Datum)
  | call (callee : FuncId) (args : List Float)
  deriving DecidableEq, Repr

/-- What an instruction asks for in a frame. -/
def Frame.request (frame : Frame) (i : Instr) : Except ExecFault Request :=
  match i.kind with
  | .arith op lhs rhs => do
    let x ← frame.readDouble lhs
    let y ← frame.readDouble rhs
    return .value (.double (op.apply x y))
  | .compare pred lhs rhs => do
    let x ← frame.readDouble lhs
    let y ← frame.readDouble rhs
    return .value (.bool (pred.holds x y))
  | .promote src => do
    let b ← frame.readBool src
    return .value (.double (if b then 1.0 else 0.0))
  | .call callee _ args => do
    let values ← frame.readDoubles args
    return .call callee values
  | .phi .. => throw (.latePhi i.dest)

/--
A place in a run: before a block that is reached from `prev`, or inside a block with
instructions still to run.
-/
inductive Point where
  | before (prev : Option BlockId) (id : BlockId)
  | inside (b : Block) (rest : List Instr)

/-- How a function can go on and end from a point. -/
inductive Runs (call : FuncId → List Float → Ending → Prop) (f : Function) :
    Frame → Point → Ending → Prop
  | missing {frame : Frame} {prev : Option BlockId} {id : BlockId}
      (hb : f.block? id = none) :
      Runs call f frame (.before prev id) ⟨0, [], .error (.missingBlock f.name id)⟩
  | stuck {frame : Frame} {prev : Option BlockId} {id : BlockId} {b : Block} {e : ExecFault}
      (hb : f.block? id = some b)
      (he : enter frame prev b = .error e) :
      Runs call f frame (.before prev id) ⟨0, [], .error e⟩
  | enter {frame entered : Frame} {prev : Option BlockId} {id : BlockId}
      {b : Block} {o : Ending}
      (hb : f.block? id = some b)
      (he : enter frame prev b = .ok entered)
      (h : Runs call f entered (.inside b b.body) o) :
      Runs call f frame (.before prev id) o
  | fault {frame : Frame} {b : Block} {i : Instr} {rest : List Instr} {e : ExecFault}
      (hi : frame.request i = .error e) :
      Runs call f frame (.inside b (i :: rest)) ⟨1, [], .error e⟩
  | value {frame : Frame} {b : Block} {i : Instr} {rest : List Instr}
      {d : Datum} {o : Ending}
      (hi : frame.request i = .ok (.value d))
      (h : Runs call f (frame.set i.dest d) (.inside b rest) o) :
      Runs call f frame (.inside b (i :: rest)) (o.after 1 [])
  | call {frame : Frame} {b : Block} {i : Instr} {rest : List Instr} {callee : FuncId}
      {args : List Float}
      {steps : Nat} {calls : List HostCall} {x : Float} {o : Ending}
      (hi : frame.request i = .ok (.call callee args))
      (hcall : call callee args ⟨steps, calls, .ok x⟩)
      (h : Runs call f (frame.set i.dest (.double x)) (.inside b rest) o) :
      Runs call f frame (.inside b (i :: rest)) (o.after (1 + steps) calls)
  | callFault {frame : Frame} {b : Block} {i : Instr} {rest : List Instr} {callee : FuncId}
      {args : List Float}
      {steps : Nat} {calls : List HostCall} {e : ExecFault}
      (hi : frame.request i = .ok (.call callee args))
      (hcall : call callee args ⟨steps, calls, .error e⟩) :
      Runs call f frame (.inside b (i :: rest)) ⟨1 + steps, calls, .error e⟩
  | termFault {frame : Frame} {b : Block} {e : ExecFault}
      (ht : runTerm frame f b = .error e) :
      Runs call f frame (.inside b []) ⟨1, [], .error e⟩
  | done {frame : Frame} {b : Block} {x : Float}
      (ht : runTerm frame f b = .ok (.done x)) :
      Runs call f frame (.inside b []) ⟨1, [], .ok x⟩
  | goTo {frame : Frame} {b : Block} {target : BlockId} {o : Ending}
      (ht : runTerm frame f b = .ok (.goTo target))
      (h : Runs call f frame (.before (some b.id) target) o) :
      Runs call f frame (.inside b []) (o.after 1 [])

/-- How a call of a function that exists can end. -/
def Answers (call : FuncId → List Float → Ending → Prop) (f : Function) (args : List Float)
    (o : Ending) : Prop :=
  if f.arity = args.length then
    match f.entry? with
    | none => o = ⟨0, [⟨f.name, args⟩], (HostCall.result ⟨f.name, args⟩).mapError .host⟩
    | some entry => Runs call f ⟨args, []⟩ (.before none entry) o
  else o = ⟨0, [], .error (.wrongCount f.name f.arity args.length)⟩

/--
How a call can end with `remaining` more calls that may be open at once, of `limit` in all.
-/
def Calls (m : Module) (limit : Nat) :
    (remaining : Nat) → FuncId → List Float → Ending → Prop
  | 0, _, _, o => o = ⟨0, [], .error (.depthLimit limit)⟩
  | remaining + 1, id, args, o =>
    match m.function? id with
    | none => o = ⟨0, [], .error (.missingFunction id)⟩
    | some f => Answers (Calls m limit remaining) f args o

/-! ## The machine's computations at a progress -/

section Exec

variable {α β : Type}

@[simp] theorem run_pure
    (a : α)
    (p : Progress) :
    (pure a : Exec α).run.run p = (.ok a, p) :=
  rfl

@[simp] theorem run_throw
    (e : ExecFault)
    (p : Progress) :
    (throw e : Exec α).run.run p = (.error e, p) :=
  rfl

theorem lift_ok_bind
    (a : α)
    (k : α → Exec β) :
    (liftM (.ok a : Except ExecFault α) : Exec α) >>= k = k a :=
  rfl

theorem lift_error_bind
    (e : ExecFault)
    (k : α → Exec β) :
    (liftM (.error e : Except ExecFault α) : Exec α) >>= k = throw e :=
  rfl

theorem run_bind_ok
    {x : Exec α}
    {k : α → Exec β}
    {p q : Progress}
    {a : α}
    (h : x.run.run p = (.ok a, q)) :
    (x >>= k).run.run p = (k a).run.run q := by
  simp only [ExceptT.run_bind, StateT.run_bind, h]
  rfl

theorem run_bind_error
    {x : Exec α}
    {k : α → Exec β}
    {p q : Progress}
    {e : ExecFault}
    (h : x.run.run p = (.error e, q)) :
    (x >>= k).run.run p = (.error e, q) := by
  simp only [ExceptT.run_bind, StateT.run_bind, h]
  rfl

theorem run_tick
    (limits : Limits)
    (p : Progress) :
    (tick limits).run.run p =
      (if limits.steps < p.steps + 1 then .error (.stepLimit limits.steps) else .ok (),
        { p with steps := p.steps + 1 }) := by
  have htick : (tick limits).run.run p =
      (if limits.steps < p.steps + 1 then
        throw (.stepLimit limits.steps) else pure () : Exec Unit).run.run
        { p with steps := p.steps + 1 } := rfl
  rw [htick]
  by_cases h : limits.steps < p.steps + 1
  · rw [if_pos h, if_pos h, run_throw]
  · rw [if_neg h, if_neg h, run_pure]

theorem run_tick_ok
    {limits : Limits}
    {p : Progress}
    (h : p.steps + 1 ≤ limits.steps) :
    (tick limits).run.run p = (.ok (), ⟨p.steps + 1, p.hostCalls⟩) := by
  rw [run_tick, if_neg (by omega)]

theorem run_tick_error
    {limits : Limits}
    {p : Progress}
    (h : limits.steps < p.steps + 1) :
    (tick limits).run.run p =
      (.error (.stepLimit limits.steps), ⟨p.steps + 1, p.hostCalls⟩) := by
  rw [run_tick, if_pos h]

theorem run_callHost
    (call : HostCall)
    (p : Progress) :
    (callHost call).run.run p =
      (call.result.mapError .host, ⟨p.steps, call :: p.hostCalls⟩) := by
  unfold callHost
  cases call.result <;> rfl

end Exec

/-! ## The machine at a point -/

section Point

variable (limits : Limits) (call : FuncId → List Float → Exec Float) (f : Function)

/--
Runs a block's remaining instructions and what comes after the block, for at most
`fuel` more blocks.
-/
def runInside (fuel : Nat) (frame : Frame) (b : Block) (rest : List Instr) :
    Exec Float := do
  let after ← runInstrs limits call frame rest
  tick limits
  match ← runTerm after f b with
  | .done x => return x
  | .goTo target => runFrom limits call f fuel after (some b.id) target

/--
Runs a function from a point on, for at most `fuel` blocks after the one at the point.
-/
def runPoint (fuel : Nat) (frame : Frame) : Point → Exec Float
  | .before prev id => runFrom limits call f (fuel + 1) frame prev id
  | .inside b rest => runInside limits call f fuel frame b rest

theorem evaluate_eq
    (frame : Frame)
    (i : Instr) :
    evaluate call frame i =
      match frame.request i with
      | .error e => throw e
      | .ok (.value d) => pure d
      | .ok (.call callee args) => do return .double (← call callee args) := by
  cases hkind : i.kind with
  | arith op lhs rhs =>
      simp only [evaluate, Frame.request, hkind]
      cases frame.readDouble lhs with
      | error e => rfl
      | ok x => cases frame.readDouble rhs <;> rfl
  | compare pred lhs rhs =>
      simp only [evaluate, Frame.request, hkind]
      cases frame.readDouble lhs with
      | error e => rfl
      | ok x => cases frame.readDouble rhs <;> rfl
  | promote src =>
      simp only [evaluate, Frame.request, hkind]
      cases frame.readBool src <;> rfl
  | call callee name args =>
      simp only [evaluate, Frame.request, hkind]
      cases frame.readDoubles args <;> rfl
  | phi type incoming =>
      simp only [evaluate, Frame.request, hkind]
      rfl

theorem runFrom_succ
    (fuel : Nat)
    (frame : Frame)
    (prev : Option BlockId)
    (id : BlockId) :
    runFrom limits call f (fuel + 1) frame prev id =
      match f.block? id with
      | none => throw (.missingBlock f.name id)
      | some b =>
        match enter frame prev b with
        | .error e => throw e
        | .ok entered => runInside limits call f fuel entered b b.body := by
  cases hb : f.block? id with
  | none => simp [runFrom, hb]
  | some b =>
      have hid : b.id = id := by simpa using List.find?_some hb
      subst hid
      cases he : enter frame prev b with
      | error e =>
          simp only [runFrom, hb, runBlock, he]
          rfl
      | ok entered =>
          simp only [runFrom, hb, runBlock, he, runInside, lift_ok_bind,
            bind_assoc, pure_bind]
          refine bind_congr fun after => bind_congr fun _ => bind_congr fun next => ?_
          cases next <;> rfl

theorem runInside_nil
    (fuel : Nat)
    (frame : Frame)
    (b : Block) :
    runInside limits call f fuel frame b [] = (do
      tick limits
      match runTerm frame f b with
      | .error e => throw e
      | .ok (.done x) => return x
      | .ok (.goTo target) => runFrom limits call f fuel frame (some b.id) target) := by
  simp only [runInside, runInstrs, pure_bind]
  refine bind_congr fun _ => ?_
  cases runTerm frame f b with
  | error e => exact lift_error_bind _ _
  | ok next => cases next <;> rw [lift_ok_bind]

theorem runInside_cons
    (fuel : Nat)
    (frame : Frame)
    (b : Block)
    (i : Instr)
    (rest : List Instr) :
    runInside limits call f fuel frame b (i :: rest) = (do
      tick limits
      match frame.request i with
      | .error e => throw e
      | .ok (.value d) => runInside limits call f fuel (frame.set i.dest d) b rest
      | .ok (.call callee args) =>
        let x ← call callee args
        runInside limits call f fuel (frame.set i.dest (.double x)) b rest) := by
  simp only [runInside, runInstrs, bind_assoc, evaluate_eq]
  refine bind_congr fun _ => ?_
  cases frame.request i with
  | error e => rfl
  | ok request =>
      cases request with
      | value d => simp only [pure_bind]
      | call callee args => simp only [bind_assoc, pure_bind]

end Point

/-! ## From the relation to the machine -/

/--
A computation started at a progress ends as it should, or with the step limit if the steps
do not fit.  A run without steps fits in any case, since the limit is looked at only when a
step is taken.
-/
structure Realises (limit : Nat) (run : Exec Float) (p : Progress) (o : Ending) : Prop where
  fits : o.steps = 0 ∨ p.steps + o.steps ≤ limit → run.run.run p = (o.result, p.at o)
  cut : o.steps ≠ 0 → limit < p.steps + o.steps →
    ∃ steps made, made <:+ o.calls ∧
      run.run.run p = (.error (.stepLimit limit), ⟨steps, made ++ p.hostCalls⟩)

namespace Realises

variable {limits : Limits} {p : Progress} {o : Ending}

theorem of_throw
    (limit : Nat)
    (e : ExecFault)
    (p : Progress) :
    Realises limit (throw e) p ⟨0, [], .error e⟩ :=
  ⟨fun _ => rfl, fun h => absurd rfl h⟩

theorem of_pure
    (limit : Nat)
    (x : Float)
    (p : Progress) :
    Realises limit (pure x) p ⟨0, [], .ok x⟩ :=
  ⟨fun _ => rfl, fun h => absurd rfl h⟩

/-- One step before a computation. -/
theorem tick_bind
    {run : Exec Float}
    (h : p.steps + 1 ≤ limits.steps →
      Realises limits.steps run ⟨p.steps + 1, p.hostCalls⟩ o) :
    Realises limits.steps (tick limits >>= fun _ => run) p (o.after 1 []) := by
  by_cases hle : p.steps + 1 ≤ limits.steps
  · have hrun : (tick limits >>= fun _ => run).run.run p =
        run.run.run ⟨p.steps + 1, p.hostCalls⟩ :=
      run_bind_ok (run_tick_ok hle)
    constructor
    · intro hfits
      rw [hrun, (h hle).fits ?_]
      · simp [Progress.at, Ending.after, Nat.add_assoc]
      · simp only [Ending.after] at hfits
        right
        simp only
        omega
    · intro _ hlt
      simp only [Ending.after] at hlt
      obtain ⟨steps, made, hmade, hcut⟩ := (h hle).cut (by omega) (by simp only; omega)
      exact ⟨steps, made, by simpa [Ending.after] using hmade, by rw [hrun, hcut]⟩
  · have hrun : (tick limits >>= fun _ => run).run.run p =
        (.error (.stepLimit limits.steps), ⟨p.steps + 1, p.hostCalls⟩) :=
      run_bind_error (run_tick_error (by omega))
    constructor
    · intro hfits
      simp only [Ending.after] at hfits
      omega
    · intro _ _
      exact ⟨p.steps + 1, [], List.nil_suffix, hrun⟩

/-- A call that gives a value, before the rest of a computation. -/
theorem bind_ok
    {limit : Nat}
    {run : Exec Float}
    {next : Float → Exec Float}
    {steps : Nat}
    {calls : List HostCall}
    {x : Float}
    (hp : p.steps ≤ limit)
    (hrun : Realises limit run p ⟨steps, calls, .ok x⟩)
    (hnext : p.steps + steps ≤ limit →
      Realises limit (next x) ⟨p.steps + steps, calls ++ p.hostCalls⟩ o) :
    Realises limit (run >>= next) p (o.after steps calls) := by
  by_cases hle : p.steps + steps ≤ limit
  · have hbind : (run >>= next).run.run p =
        (next x).run.run ⟨p.steps + steps, calls ++ p.hostCalls⟩ :=
      run_bind_ok (hrun.fits (.inr hle))
    constructor
    · intro hfits
      rw [hbind, (hnext hle).fits ?_]
      · simp [Progress.at, Ending.after, Nat.add_assoc]
      · simp only [Ending.after] at hfits
        right
        simp only
        omega
    · intro _ hlt
      simp only [Ending.after] at hlt
      obtain ⟨n, made, hmade, hcut⟩ := (hnext hle).cut (by omega) (by simp only; omega)
      refine ⟨n, made ++ calls, ?_, by rw [hbind, hcut, List.append_assoc]⟩
      obtain ⟨l, hl⟩ := hmade
      exact ⟨l, by simp [Ending.after, ← hl]⟩
  · obtain ⟨n, made, hmade, hcut⟩ := hrun.cut (by simp only; omega) (by simp only; omega)
    have hbind := run_bind_error (k := next) hcut
    constructor
    · intro hfits
      simp only [Ending.after] at hfits
      omega
    · intro _ _
      exact ⟨n, made, hmade.trans (List.suffix_append _ _), hbind⟩

/-- A call that fails, before the rest of a computation. -/
theorem bind_error
    {limit : Nat}
    {run : Exec Float}
    {next : Float → Exec Float}
    {steps : Nat}
    {calls : List HostCall}
    {e : ExecFault}
    (hrun : Realises limit run p ⟨steps, calls, .error e⟩) :
    Realises limit (run >>= next) p ⟨steps, calls, .error e⟩ := by
  constructor
  · intro hfits
    exact run_bind_error (hrun.fits hfits)
  · intro hsteps hlt
    obtain ⟨n, made, hmade, hcut⟩ := hrun.cut hsteps hlt
    exact ⟨n, made, hmade, run_bind_error hcut⟩

end Realises

/-- From every point the machine ends as the relation says. -/
theorem Runs.realises
    {limits : Limits}
    {call : FuncId → List Float → Exec Float}
    {rel : FuncId → List Float → Ending → Prop}
    (hcall : ∀ callee args o, rel callee args o → ∀ p,
      Realises limits.steps (call callee args) p o)
    {f : Function}
    {frame : Frame}
    {point : Point}
    {o : Ending}
    (h : Runs rel f frame point o) :
    ∀ p fuel, limits.steps ≤ p.steps + fuel →
      Realises limits.steps (runPoint limits call f fuel frame point) p o := by
  induction h with
  | missing hb =>
      intro p fuel _
      simp only [runPoint, runFrom_succ, hb]
      exact .of_throw _ _ _
  | stuck hb he =>
      intro p fuel _
      simp only [runPoint, runFrom_succ, hb, he]
      exact .of_throw _ _ _
  | enter hb he _ ih =>
      intro p fuel hfuel
      simp only [runPoint, runFrom_succ, hb, he]
      exact ih p fuel hfuel
  | fault hi =>
      intro p fuel _
      simp only [runPoint, runInside_cons, hi]
      exact .tick_bind fun _ => .of_throw _ _ _
  | value hi _ ih =>
      intro p fuel hfuel
      simp only [runPoint, runInside_cons, hi]
      exact .tick_bind fun _ => ih _ fuel (by simp only; omega)
  | @call _ _ _ _ _ _ steps calls x o hi hrel _ ih =>
      intro p fuel hfuel
      simp only [runPoint, runInside_cons, hi]
      have hsum : o.after (1 + steps) calls = (o.after steps calls).after 1 [] := by
        rw [Ending.after_after, List.append_nil]
      rw [hsum]
      refine .tick_bind fun hle => .bind_ok hle (hcall _ _ _ hrel _) fun _ => ih _ fuel ?_
      simp only
      omega
  | @callFault _ _ _ _ _ _ steps calls e hi hrel =>
      intro p fuel _
      simp only [runPoint, runInside_cons, hi]
      have hsum : (⟨1 + steps, calls, .error e⟩ : Ending) =
          Ending.after ⟨steps, calls, .error e⟩ 1 [] := by
        simp [Ending.after]
      rw [hsum]
      exact .tick_bind fun _ => .bind_error (hcall _ _ _ hrel _)
  | termFault ht =>
      intro p fuel _
      simp only [runPoint, runInside_nil, ht]
      exact .tick_bind fun _ => .of_throw _ _ _
  | done ht =>
      intro p fuel _
      simp only [runPoint, runInside_nil, ht]
      exact .tick_bind fun _ => .of_pure _ _ _
  | goTo ht _ ih =>
      intro p fuel hfuel
      simp only [runPoint, runInside_nil, ht]
      refine .tick_bind fun hle => ?_
      -- the step just taken fits, so there is fuel for the next block
      obtain ⟨fuel, rfl⟩ : ∃ k, fuel = k + 1 := ⟨fuel - 1, by omega⟩
      exact ih _ fuel (by simp only; omega)

/-- If the steps fit the limit, a call ends as the relation says. -/
theorem Calls.realises
    {m : Module}
    {limits : Limits}
    {remaining : Nat}
    {id : FuncId}
    {args : List Float}
    {o : Ending}
    (h : Calls m limits.depth remaining id args o) :
    ∀ p, Realises limits.steps (callAt m limits remaining id args) p o := by
  induction remaining generalizing id args o with
  | zero =>
      intro p
      obtain rfl : o = _ := h
      exact .of_throw _ _ _
  | succ remaining ih =>
      intro p
      unfold Calls at h
      unfold callAt
      cases hf : m.function? id with
      | none =>
          simp only [hf] at h ⊢
          rw [h]
          exact .of_throw _ _ _
      | some f =>
          simp only [hf, Answers] at h ⊢
          by_cases harity : f.arity = args.length
          · rw [if_pos harity] at h ⊢
            cases hentry : f.entry? with
            | none =>
                simp only [hentry] at h ⊢
                rw [h]
                exact ⟨fun _ => run_callHost _ _, fun hsteps => absurd rfl hsteps⟩
            | some entry =>
                simp only [hentry] at h ⊢
                exact Runs.realises (fun _ _ _ hrel => ih hrel) h p limits.steps (by omega)
          · rw [if_neg harity] at h ⊢
            rw [h]
            exact .of_throw _ _ _

/-! ## From the machine to the relation -/

/--
Whenever a computation ends otherwise than with the step limit, it ends in a way that a
predicate allows.
-/
def Reflects (limit : Nat) (run : Exec Float) (allowed : Ending → Prop) : Prop :=
  ∀ p r q, run.run.run p = (r, q) → r ≠ .error (.stepLimit limit) → ∃ o, allowed o ∧
    r = o.result ∧ q = p.at o

namespace Reflects

variable {limits : Limits} {allowed : Ending → Prop}

theorem of_throw
    {limit : Nat}
    {e : ExecFault}
    (h : allowed ⟨0, [], .error e⟩) :
    Reflects limit (throw e) allowed := by
  intro p r q hrun _
  cases hrun
  exact ⟨_, h, rfl, rfl⟩

theorem of_pure
    {limit : Nat}
    {x : Float}
    (h : allowed ⟨0, [], .ok x⟩) :
    Reflects limit (pure x) allowed := by
  intro p r q hrun _
  cases hrun
  exact ⟨_, h, rfl, rfl⟩

theorem of_stepLimit
    (limit : Nat)
    (allowed : Ending → Prop) :
    Reflects limit (throw (.stepLimit limit)) allowed := by
  intro p r q hrun hne
  cases hrun
  exact absurd rfl hne

/-- One step before a computation. -/
theorem tick_bind
    {run : Exec Float}
    (h : Reflects limits.steps run fun o => allowed (o.after 1 [])) :
    Reflects limits.steps (tick limits >>= fun _ => run) allowed := by
  intro p r q hrun hne
  by_cases hle : p.steps + 1 ≤ limits.steps
  · rw [run_bind_ok (run_tick_ok hle)] at hrun
    obtain ⟨o, ho, hr, hq⟩ := h _ _ _ hrun hne
    exact ⟨_, ho, hr, by simp [hq, Progress.at, Ending.after, Nat.add_assoc]⟩
  · rw [run_bind_error (run_tick_error (by omega))] at hrun
    cases hrun
    exact absurd rfl hne

/-- A call before the rest of a computation. -/
theorem bind
    {limit : Nat}
    {run : Exec Float}
    {next : Float → Exec Float}
    {ends : Ending → Prop}
    (hrun : Reflects limit run ends)
    (herror : ∀ steps calls e, ends ⟨steps, calls, .error e⟩ →
      allowed ⟨steps, calls, .error e⟩)
    (hnext : ∀ steps calls x, ends ⟨steps, calls, .ok x⟩ →
      Reflects limit (next x) fun o => allowed (o.after steps calls)) :
    Reflects limit (run >>= next) allowed := by
  intro p r q hbind hne
  rcases hfirst : run.run.run p with ⟨result, q₁⟩
  cases result with
  | error e =>
      rw [run_bind_error hfirst] at hbind
      cases hbind
      obtain ⟨⟨steps, calls, result⟩, hends, hr, hq⟩ := hrun _ _ _ hfirst hne
      cases hr
      exact ⟨_, herror _ _ _ hends, rfl, hq⟩
  | ok x =>
      rw [run_bind_ok hfirst] at hbind
      obtain ⟨⟨steps, calls, result⟩, hends, hr, hq⟩ := hrun _ _ _ hfirst (by simp)
      cases hr
      obtain ⟨o, ho, hr, hq'⟩ := hnext _ _ _ hends _ _ _ hbind hne
      exact ⟨_, ho, hr, by simp [hq', hq, Progress.at, Ending.after, Nat.add_assoc]⟩

end Reflects

section Reflection

variable
  {limits : Limits}
  {call : FuncId → List Float → Exec Float}
  {rel : FuncId → List Float → Ending → Prop}
  (hcall : ∀ callee args, Reflects limits.steps (call callee args) (rel callee args))
  {f : Function}

include hcall

/-- The rest of a block, given what holds of the blocks after it. -/
theorem reflects_runInside
    {fuel : Nat}
    (hfrom : ∀ frame prev id,
      Reflects limits.steps (runFrom limits call f fuel frame prev id)
      (Runs rel f frame (.before prev id)))
    (frame : Frame)
    (b : Block)
    (rest : List Instr) :
    Reflects limits.steps (runInside limits call f fuel frame b rest)
      (Runs rel f frame (.inside b rest)) := by
  induction rest generalizing frame with
  | nil =>
      rw [runInside_nil]
      refine .tick_bind ?_
      cases ht : runTerm frame f b with
      | error e => exact .of_throw (.termFault ht)
      | ok next =>
          cases next with
          | done x => exact .of_pure (.done ht)
          | goTo target =>
              intro p r q hrun hne
              obtain ⟨o, ho, hr, hq⟩ := hfrom _ _ _ p r q hrun hne
              exact ⟨o, .goTo ht ho, hr, hq⟩
  | cons i rest ih =>
      rw [runInside_cons]
      refine .tick_bind ?_
      cases hi : frame.request i with
      | error e => exact .of_throw (.fault hi)
      | ok request =>
          cases request with
          | value d =>
              intro p r q hrun hne
              obtain ⟨o, ho, hr, hq⟩ := ih _ p r q hrun hne
              exact ⟨o, .value hi ho, hr, hq⟩
          | call callee args =>
              refine .bind (hcall callee args) ?_ ?_
              · intro steps calls e hrel
                have hruns : Runs rel f frame (.inside b (i :: rest)) _ :=
                  .callFault hi hrel
                simpa [Ending.after] using hruns
              · intro steps calls x hrel p r q hrun hne
                obtain ⟨o, ho, hr, hq⟩ := ih _ p r q hrun hne
                have hruns : Runs rel f frame (.inside b (i :: rest)) _ := .call hi hrel ho
                exact ⟨o, by simpa [Ending.after_after] using hruns, hr, hq⟩

theorem reflects_runFrom
    (fuel : Nat)
    (frame : Frame)
    (prev : Option BlockId)
    (id : BlockId) :
    Reflects limits.steps (runFrom limits call f fuel frame prev id)
      (Runs rel f frame (.before prev id)) := by
  induction fuel generalizing frame prev id with
  | zero => exact .of_stepLimit _ _
  | succ fuel ih =>
      rw [runFrom_succ]
      cases hb : f.block? id with
      | none => exact .of_throw (.missing hb)
      | some b =>
          simp only
          cases he : enter frame prev b with
          | error e => exact .of_throw (.stuck hb he)
          | ok entered =>
              intro p r q hrun hne
              obtain ⟨o, ho, hr, hq⟩ :=
                reflects_runInside hcall ih entered b b.body p r q hrun hne
              exact ⟨o, .enter hb he ho, hr, hq⟩

end Reflection

/--
Whenever a call ends otherwise than with the step limit, it ends in a way that
the relation allows.
-/
theorem reflects_callAt
    (m : Module)
    (limits : Limits)
    (remaining : Nat)
    (id : FuncId)
    (args : List Float) :
    Reflects limits.steps (callAt m limits remaining id args)
      (Calls m limits.depth remaining id args) := by
  induction remaining generalizing id args with
  | zero => exact .of_throw rfl
  | succ remaining ih =>
      change Reflects _ _ fun o => Calls m limits.depth (remaining + 1) id args o
      unfold Calls callAt
      cases hf : m.function? id with
      | none => exact .of_throw rfl
      | some f =>
          simp only [Answers]
          by_cases harity : f.arity = args.length
          · simp only [if_pos harity]
            cases hentry : f.entry? with
            | none =>
                intro p r q hrun _
                rw [run_callHost] at hrun
                cases hrun
                exact ⟨_, rfl, rfl, rfl⟩
            | some entry => exact reflects_runFrom ih _ _ _ _
          · simp only [if_neg harity]
            exact .of_throw rfl

end Machine
end ScalarSsa
