import ScalarSsa.Proofs.Machine.Runs
import ScalarSsa.Proofs.Ssa.Sites

/-!
# The machine stays within its budget

**Input.** A module, well formed or not, limits, and calls that are made one after the other
on one machine.

**Definitions.** A `Counter` says which count follows on another one, if there is one:
counts may be unbounded, or kept in words of a certain size.  `Executes` has a rule for
everything that a machine with limits and a counter can do.  It counts the depth of calls
from the outermost one on, as a limit that is passed down, and the steps as a number that is
handed on.  There is no bound on the blocks of a run or on the calls of a chain, so that
whatever it relates is the outcome of finitely many rules.

**Results.** `exists_executes`: with unbounded counts there is an outcome in every case.
What is used up are the steps: inside a block one is taken before the run goes on to an
instruction, a call or another block.  `executes_iff`: the outcome is the machine's.
`Executes.within` and `Executes.steps_le_max` bound the steps.
`Counter.OfSize.executes_iff`: below the largest count of a word it makes no difference that
counts are kept in words.  `turns_within_budget` puts all this together for calls that share
one count of steps, and `spin_without_end` says that a limit at the largest count is none.
-/

namespace ScalarSsa
namespace Machine

/-- Which count follows on a count, if there is one. -/
def Counter := Nat → Option Nat

namespace Counter

/-- Every count is followed by a larger one. -/
def unbounded : Counter :=
  fun n => some (n + 1)

/-- The largest count of a word is followed by zero. -/
def wrapping (size : Nat) : Counter :=
  fun n => some ((n + 1) % size)

/-- The largest count of a word is followed by none. -/
def checked (size : Nat) : Counter :=
  fun n => if n + 1 < size then some (n + 1) else none

/-- Counts are kept in words of a size, whatever follows on the largest one. -/
structure OfSize (size : Nat) (counter : Counter) : Prop where
  eq_succ : ∀ n, n + 1 < size → counter n = some (n + 1)
  lt_size : ∀ n k, counter n = some k → k < size

theorem ofSize_wrapping
    (size : Nat)
    (h : 0 < size) :
    OfSize size (wrapping size) := by
  constructor
  · intro n hn
    rw [wrapping, Nat.mod_eq_of_lt hn]
  · intro n k hk
    obtain rfl := Option.some.inj hk
    exact Nat.mod_lt _ h

theorem ofSize_checked
    (size : Nat) :
    OfSize size (checked size) := by
  constructor
  · intro n hn
    rw [checked, if_pos hn]
  · intro n k hk
    unfold checked at hk
    split at hk
    · next hn =>
      obtain rfl := Option.some.inj hk
      exact hn
    · cases hk

end Counter

/-- The progress with another count of steps. -/
def Progress.count (p : Progress) (steps : Nat) : Progress :=
  ⟨steps, p.hostCalls⟩

/-- What a machine has to do. -/
inductive Task where
  | named (name : String) (args : List Float)
  | call (depth : Nat) (id : FuncId) (args : List Float)
  | run (depth : Nat) (f : Function) (frame : Frame) (point : Point)

/-- How a machine with limits and a counter does what it has to do. -/
inductive Executes (counter : Counter) (m : Module) (limits : Limits) :
    Task → Progress → Except ExecFault Float → Progress → Prop
  | unknown {p : Progress} {name : String} {args : List Float}
      (hname : m.find? name = none) :
      Executes counter m limits (.named name args) p (.error (.unknownName name)) p
  | known {p q : Progress} {name : String} {args : List Float} {id : FuncId}
      {r : Except ExecFault Float}
      (hname : m.find? name = some id)
      (h : Executes counter m limits (.call 0 id args) p r q) :
      Executes counter m limits (.named name args) p r q
  | tooDeep {p : Progress} {depth : Nat} {id : FuncId} {args : List Float}
      (hdepth : limits.depth ≤ depth) :
      Executes counter m limits (.call depth id args) p
        (.error (.depthLimit limits.depth)) p
  | noFunction {p : Progress} {depth : Nat} {id : FuncId} {args : List Float}
      (hdepth : depth < limits.depth)
      (hf : m.function? id = none) :
      Executes counter m limits (.call depth id args) p (.error (.missingFunction id)) p
  | wrongCount {p : Progress} {depth : Nat} {id : FuncId} {args : List Float} {f : Function}
      (hdepth : depth < limits.depth)
      (hf : m.function? id = some f)
      (harity : f.arity ≠ args.length) :
      Executes counter m limits (.call depth id args) p
        (.error (.wrongCount f.name f.arity args.length)) p
  | host {p : Progress} {depth : Nat} {id : FuncId} {args : List Float} {f : Function}
      (hdepth : depth < limits.depth)
      (hf : m.function? id = some f)
      (harity : f.arity = args.length)
      (hentry : f.entry? = none) :
      Executes counter m limits (.call depth id args) p
        ((HostCall.result ⟨f.name, args⟩).mapError .host)
        ⟨p.steps, ⟨f.name, args⟩ :: p.hostCalls⟩
  | body {p q : Progress} {depth : Nat} {id : FuncId} {args : List Float} {f : Function}
      {entry : BlockId} {r : Except ExecFault Float}
      (hdepth : depth < limits.depth)
      (hf : m.function? id = some f)
      (harity : f.arity = args.length)
      (hentry : f.entry? = some entry)
      (h : Executes counter m limits (.run depth f ⟨args, []⟩ (.before none entry)) p r q) :
      Executes counter m limits (.call depth id args) p r q
  | missing {p : Progress} {depth : Nat} {f : Function} {frame : Frame}
      {prev : Option BlockId}
      {id : BlockId}
      (hb : f.block? id = none) :
      Executes counter m limits (.run depth f frame (.before prev id)) p
        (.error (.missingBlock f.name id)) p
  | stuck {p : Progress} {depth : Nat} {f : Function} {frame : Frame}
      {prev : Option BlockId}
      {id : BlockId} {b : Block} {e : ExecFault}
      (hb : f.block? id = some b)
      (he : enter frame prev b = .error e) :
      Executes counter m limits (.run depth f frame (.before prev id)) p (.error e) p
  | enter {p q : Progress} {depth : Nat} {f : Function} {frame entered : Frame}
      {prev : Option BlockId} {id : BlockId} {b : Block} {r : Except ExecFault Float}
      (hb : f.block? id = some b)
      (he : enter frame prev b = .ok entered)
      (h : Executes counter m limits (.run depth f entered (.inside b b.body)) p r q) :
      Executes counter m limits (.run depth f frame (.before prev id)) p r q
  | outOfSteps {p : Progress} {n depth : Nat} {f : Function} {frame : Frame} {b : Block}
      {rest : List Instr}
      (hnext : counter p.steps = some n)
      (hsteps : limits.steps < n) :
      Executes counter m limits (.run depth f frame (.inside b rest)) p
        (.error (.stepLimit limits.steps)) (p.count n)
  | fault {p : Progress} {n depth : Nat} {f : Function} {frame : Frame}
      {b : Block} {i : Instr}
      {rest : List Instr} {e : ExecFault}
      (hnext : counter p.steps = some n)
      (hsteps : n ≤ limits.steps)
      (hi : frame.request i = .error e) :
      Executes counter m limits (.run depth f frame (.inside b (i :: rest))) p
        (.error e) (p.count n)
  | value {p q : Progress} {n depth : Nat} {f : Function} {frame : Frame}
      {b : Block} {i : Instr}
      {rest : List Instr} {d : Datum} {r : Except ExecFault Float}
      (hnext : counter p.steps = some n)
      (hsteps : n ≤ limits.steps)
      (hi : frame.request i = .ok (.value d))
      (h : Executes counter m limits (.run depth f (frame.set i.dest d) (.inside b rest))
        (p.count n) r q) :
      Executes counter m limits (.run depth f frame (.inside b (i :: rest))) p r q
  | call {p p' q : Progress} {n depth : Nat} {f : Function} {frame : Frame}
      {b : Block} {i : Instr}
      {rest : List Instr} {callee : FuncId} {args : List Float} {x : Float}
      {r : Except ExecFault Float}
      (hnext : counter p.steps = some n)
      (hsteps : n ≤ limits.steps)
      (hi : frame.request i = .ok (.call callee args))
      (hcall : Executes counter m limits (.call (depth + 1) callee args)
        (p.count n) (.ok x) p')
      (h : Executes counter m limits
        (.run depth f (frame.set i.dest (.double x)) (.inside b rest))
        p' r q) :
      Executes counter m limits (.run depth f frame (.inside b (i :: rest))) p r q
  | callFault {p q : Progress} {n depth : Nat} {f : Function} {frame : Frame} {b : Block}
      {i : Instr} {rest : List Instr} {callee : FuncId} {args : List Float} {e : ExecFault}
      (hnext : counter p.steps = some n)
      (hsteps : n ≤ limits.steps)
      (hi : frame.request i = .ok (.call callee args))
      (hcall : Executes counter m limits (.call (depth + 1) callee args)
        (p.count n) (.error e) q) :
      Executes counter m limits (.run depth f frame (.inside b (i :: rest))) p (.error e) q
  | termFault {p : Progress} {n depth : Nat} {f : Function} {frame : Frame} {b : Block}
      {e : ExecFault}
      (hnext : counter p.steps = some n)
      (hsteps : n ≤ limits.steps)
      (ht : runTerm frame f b = .error e) :
      Executes counter m limits (.run depth f frame (.inside b [])) p (.error e) (p.count n)
  | done {p : Progress} {n depth : Nat} {f : Function} {frame : Frame}
      {b : Block} {x : Float}
      (hnext : counter p.steps = some n)
      (hsteps : n ≤ limits.steps)
      (ht : runTerm frame f b = .ok (.done x)) :
      Executes counter m limits (.run depth f frame (.inside b [])) p (.ok x) (p.count n)
  | goTo {p q : Progress} {n depth : Nat} {f : Function} {frame : Frame} {b : Block}
      {target : BlockId} {r : Except ExecFault Float}
      (hnext : counter p.steps = some n)
      (hsteps : n ≤ limits.steps)
      (ht : runTerm frame f b = .ok (.goTo target))
      (h : Executes counter m limits (.run depth f frame (.before (some b.id) target))
        (p.count n)
        r q) :
      Executes counter m limits (.run depth f frame (.inside b [])) p r q

variable {counter : Counter} {m : Module} {limits : Limits}

@[simp] theorem Progress.steps_count
    (p : Progress)
    (steps : Nat) :
    (p.count steps).steps = steps :=
  rfl

@[simp] theorem Counter.unbounded_eq_some
    {n k : Nat} :
    unbounded n = some k ↔ n + 1 = k :=
  Option.some_inj

/-! ## Bounds on the steps -/

section Bounds

variable {task : Task} {p q : Progress} {r : Except ExecFault Float}

/-- From a progress within the budget only the step limit leads out of it. -/
theorem Executes.within
    (h : Executes counter m limits task p r q)
    (hp : p.steps ≤ limits.steps) :
    q.steps ≤ limits.steps ∨ r = .error (.stepLimit limits.steps) := by
  induction h with
  | known _ _ ih => exact ih hp
  | body _ _ _ _ _ ih => exact ih hp
  | enter _ _ _ ih => exact ih hp
  | outOfSteps => exact .inr rfl
  | fault _ hsteps _ => exact .inl hsteps
  | value _ hsteps _ _ ih => exact ih hsteps
  | call _ hsteps _ _ _ ihcall ih =>
      rcases ihcall hsteps with hle | hlimit
      · exact ih hle
      · cases hlimit
  | callFault _ hsteps _ _ ih => exact ih hsteps
  | termFault _ hsteps _ => exact .inl hsteps
  | done _ hsteps _ => exact .inl hsteps
  | goTo _ hsteps _ _ ih => exact ih hsteps
  | _ => exact .inl hp

/-- Steps are never taken back. -/
theorem Executes.le_steps
    (h : Executes .unbounded m limits task p r q) :
    p.steps ≤ q.steps := by
  induction h with
  | known _ _ ih => exact ih
  | body _ _ _ _ _ ih => exact ih
  | enter _ _ _ ih => exact ih
  | _ => grind [Counter.unbounded_eq_some, Progress.steps_count]

/-- The step that does not fit is counted, and no other one after it. -/
theorem Executes.steps_le_max
    (h : Executes .unbounded m limits task p r q) :
    q.steps ≤ max p.steps limits.steps + 1 := by
  induction h with
  | known _ _ ih => exact ih
  | body _ _ _ _ _ ih => exact ih
  | enter _ _ _ ih => exact ih
  | call hnext hsteps _ hcall _ _ ih =>
      -- the callee gave a value, so the run goes on within the budget
      rcases hcall.within hsteps with hle | hlimit
      · omega
      · cases hlimit
  | _ => grind [Counter.unbounded_eq_some, Progress.steps_count]

/-- A body that is run to its end has taken its steps within the budget. -/
theorem Executes.within_of_ok
    {depth : Nat}
    {f : Function}
    {frame : Frame}
    {point : Point}
    {x : Float}
    (h : Executes .unbounded m limits (.run depth f frame point) p (.ok x) q) :
    q.steps ≤ limits.steps := by
  have hinside : ∀ {frame b rest},
      Executes .unbounded m limits (.run depth f frame (.inside b rest)) p (.ok x) q →
        p.steps ≤ limits.steps := by
    intro frame b rest h
    cases h <;> simp only [Counter.unbounded_eq_some] at * <;> omega
  have hp : p.steps ≤ limits.steps := by
    cases h with
    | enter _ _ h => exact hinside h
    | value hnext hsteps hi h => exact hinside (.value hnext hsteps hi h)
    | call hnext hsteps hi hcall h => exact hinside (.call hnext hsteps hi hcall h)
    | done hnext hsteps ht => exact hinside (.done hnext hsteps ht)
    | goTo hnext hsteps ht h => exact hinside (.goTo hnext hsteps ht h)
  rcases h.within hp with hle | hlimit
  · exact hle
  · cases hlimit

end Bounds

/-! ## Every task has an outcome -/

section Outcome

/-- A task has an outcome. -/
def Ends (m : Module) (limits : Limits) (task : Task) (p : Progress) : Prop :=
  ∃ r q, Executes .unbounded m limits task p r q

variable {p : Progress} {depth : Nat} {f : Function} {frame : Frame}

/--
Inside a block a step is taken before anything else, so that what is left has to end only
from a later progress.
-/
theorem ends_inside
    (h : ∀ task p', p.steps < p'.steps → p.steps < limits.steps → Ends m limits task p')
    (b : Block)
    (rest : List Instr) :
    Ends m limits (.run depth f frame (.inside b rest)) p := by
  by_cases hsteps : p.steps + 1 ≤ limits.steps
  · have next : ∀ task (p' : Progress), p.steps + 1 ≤ p'.steps → Ends m limits task p' :=
      fun task p' hlater => h task p' hlater hsteps
    cases rest with
    | nil =>
        cases ht : runTerm frame f b with
        | error e => exact ⟨_, _, .termFault rfl hsteps ht⟩
        | ok following =>
            cases following with
            | done x => exact ⟨_, _, .done rfl hsteps ht⟩
            | goTo target =>
                obtain ⟨r, q, hrun⟩ :=
                  next (.run depth f frame (.before (some b.id) target))
                  (p.count (p.steps + 1)) (Nat.le_refl _)
                exact ⟨r, q, .goTo rfl hsteps ht hrun⟩
    | cons i rest =>
        cases hi : frame.request i with
        | error e => exact ⟨_, _, .fault rfl hsteps hi⟩
        | ok request =>
            cases request with
            | value d =>
                obtain ⟨r, q, hrun⟩ :=
                  next (.run depth f (frame.set i.dest d) (.inside b rest))
                  (p.count (p.steps + 1)) (Nat.le_refl _)
                exact ⟨r, q, .value rfl hsteps hi hrun⟩
            | call callee args =>
                obtain ⟨result, p', hcall⟩ := next (.call (depth + 1) callee args)
                  (p.count (p.steps + 1)) (Nat.le_refl _)
                cases result with
                | error e => exact ⟨_, _, .callFault rfl hsteps hi hcall⟩
                | ok x =>
                    obtain ⟨r, q, hrun⟩ := next
                      (.run depth f (frame.set i.dest (.double x)) (.inside b rest)) p'
                      hcall.le_steps
                    exact ⟨r, q, .call rfl hsteps hi hcall hrun⟩
  · exact ⟨_, _, .outOfSteps rfl (by omega)⟩

theorem ends_before
    (h : ∀ entered b rest, Ends m limits (.run depth f entered (.inside b rest)) p)
    (prev : Option BlockId)
    (id : BlockId) :
    Ends m limits (.run depth f frame (.before prev id)) p := by
  cases hb : f.block? id with
  | none => exact ⟨_, _, .missing hb⟩
  | some b =>
      cases he : enter frame prev b with
      | error e => exact ⟨_, _, .stuck hb he⟩
      | ok entered =>
          obtain ⟨r, q, hrun⟩ := h entered b b.body
          exact ⟨r, q, .enter hb he hrun⟩

theorem ends_call
    (h : ∀ f frame prev id, Ends m limits (.run depth f frame (.before prev id)) p)
    (id : FuncId)
    (args : List Float) :
    Ends m limits (.call depth id args) p := by
  by_cases hdepth : depth < limits.depth
  · cases hf : m.function? id with
    | none => exact ⟨_, _, .noFunction hdepth hf⟩
    | some f =>
        by_cases harity : f.arity = args.length
        · cases hentry : f.entry? with
          | none => exact ⟨_, _, .host hdepth hf harity hentry⟩
          | some entry =>
              obtain ⟨r, q, hrun⟩ := h f ⟨args, []⟩ none entry
              exact ⟨r, q, .body hdepth hf harity hentry hrun⟩
        · exact ⟨_, _, .wrongCount hdepth hf harity⟩
  · exact ⟨_, _, .tooDeep (by omega)⟩

/-- Whatever has to be done comes to an end. -/
theorem exists_executes
    (m : Module)
    (limits : Limits)
    (task : Task)
    (p : Progress) :
    ∃ r q, Executes .unbounded m limits task p r q := by
  -- the steps that are left decrease; from a call to the block that it enters none is
  -- taken, but there is no way back
  generalize hleft : limits.steps - p.steps = left
  induction left using Nat.strongRecOn generalizing task p with
  | ind left ih =>
      have hinside : ∀ depth f frame b rest,
          Ends m limits (.run depth f frame (.inside b rest)) p :=
        fun _ _ _ => ends_inside fun task p' _ _ =>
          ih (limits.steps - p'.steps) (by omega) task p' rfl
      have hbefore : ∀ depth f frame prev id,
          Ends m limits (.run depth f frame (.before prev id)) p :=
        fun depth f _ => ends_before (hinside depth f)
      have hcall : ∀ depth id args, Ends m limits (.call depth id args) p :=
        fun depth => ends_call (hbefore depth)
      match task with
      | .named name args =>
          cases hname : m.find? name with
          | none => exact ⟨_, _, .unknown hname⟩
          | some id =>
              obtain ⟨r, q, h⟩ := hcall 0 id args
              exact ⟨r, q, .known hname h⟩
      | .call depth id args => exact hcall depth id args
      | .run depth f frame (.before prev id) => exact hbefore depth f frame prev id
      | .run depth f frame (.inside b rest) => exact hinside depth f frame b rest

end Outcome

/-! ## The outcome is the machine's -/

/-- What the machine does for a task; `fuel` bounds the blocks after the one at a point. -/
def Task.perform (m : Module) (limits : Limits) (fuel : Nat) : Task → Exec Float
  | .named name args => callNamed m limits name args
  | .call depth id args => callAt m limits (limits.depth - depth) id args
  | .run depth f frame point =>
    runPoint limits (fun id args => callAt m limits (limits.depth - (depth + 1)) id args) f
      fuel frame point

theorem callAt_of_lt
    {depth : Nat}
    (hdepth : depth < limits.depth)
    (id : FuncId)
    (args : List Float) :
    callAt m limits (limits.depth - depth) id args =
      match m.function? id with
      | none => throw (.missingFunction id)
      | some f =>
        if f.arity = args.length then
          match f.entry? with
          | none => callHost ⟨f.name, args⟩
          | some entry =>
            Task.perform m limits limits.steps
              (.run depth f ⟨args, []⟩ (.before none entry))
        else throw (.wrongCount f.name f.arity args.length) := by
  rw [show limits.depth - depth = limits.depth - (depth + 1) + 1 by omega, callAt]
  rfl

/--
The machine comes to the outcome of a task, if there is fuel for the steps that are left.
-/
theorem Executes.run_eq
    {task : Task}
    {p q : Progress}
    {r : Except ExecFault Float}
    (h : Executes .unbounded m limits task p r q) :
    ∀ fuel, limits.steps ≤ p.steps + fuel →
      (task.perform m limits fuel).run.run p = (r, q) := by
  induction h with
  | unknown hname =>
      intro _ _
      simp only [Task.perform, callNamed, hname]
      exact run_throw _ _
  | known hname _ ih =>
      intro fuel hfuel
      simp only [Task.perform, callNamed, hname]
      exact ih fuel hfuel
  | tooDeep hdepth =>
      intro _ _
      rw [Task.perform, Nat.sub_eq_zero_of_le hdepth, callAt]
      exact run_throw _ _
  | noFunction hdepth hf =>
      intro _ _
      simp only [Task.perform, callAt_of_lt hdepth, hf]
      exact run_throw _ _
  | wrongCount hdepth hf harity =>
      intro _ _
      simp only [Task.perform, callAt_of_lt hdepth, hf, if_neg harity]
      exact run_throw _ _
  | host hdepth hf harity hentry =>
      intro _ _
      simp only [Task.perform, callAt_of_lt hdepth, hf, if_pos harity, hentry]
      exact run_callHost _ _
  | body hdepth hf harity hentry _ ih =>
      intro _ _
      rw [Task.perform, callAt_of_lt hdepth]
      simp only [hf, if_pos harity, hentry]
      exact ih limits.steps (by omega)
  | missing hb =>
      intro _ _
      simp only [Task.perform, runPoint, runFrom_succ, hb]
      exact run_throw _ _
  | stuck hb he =>
      intro _ _
      simp only [Task.perform, runPoint, runFrom_succ, hb, he]
      exact run_throw _ _
  | enter hb he _ ih =>
      intro fuel hfuel
      simp only [Task.perform, runPoint, runFrom_succ, hb, he]
      exact ih fuel hfuel
  | @outOfSteps p n depth f frame b rest hnext hsteps =>
      intro _ _
      obtain rfl := Counter.unbounded_eq_some.1 hnext
      cases rest with
      | nil =>
          simp only [Task.perform, runPoint, runInside_nil]
          exact run_bind_error (run_tick_error hsteps)
      | cons i rest =>
          simp only [Task.perform, runPoint, runInside_cons]
          exact run_bind_error (run_tick_error hsteps)
  | fault hnext hsteps hi =>
      intro _ _
      obtain rfl := Counter.unbounded_eq_some.1 hnext
      simp only [Task.perform, runPoint, runInside_cons, hi,
        run_bind_ok (run_tick_ok hsteps)]
      exact run_throw _ _
  | value hnext hsteps hi _ ih =>
      intro fuel hfuel
      obtain rfl := Counter.unbounded_eq_some.1 hnext
      simp only [Task.perform, runPoint, runInside_cons, hi,
        run_bind_ok (run_tick_ok hsteps)]
      exact ih fuel (by rw [Progress.steps_count]; omega)
  | call hnext hsteps hi hcall _ ihcall ih =>
      intro fuel hfuel
      obtain rfl := Counter.unbounded_eq_some.1 hnext
      have hle := hcall.le_steps
      rw [Progress.steps_count] at hle
      have hcallee := ihcall fuel (by rw [Progress.steps_count]; omega)
      simp only [Task.perform, runPoint, runInside_cons, hi,
        run_bind_ok (run_tick_ok hsteps)]
      exact (run_bind_ok hcallee).trans (ih fuel (by omega))
  | callFault hnext hsteps hi _ ihcall =>
      intro fuel hfuel
      obtain rfl := Counter.unbounded_eq_some.1 hnext
      simp only [Task.perform, runPoint, runInside_cons, hi,
        run_bind_ok (run_tick_ok hsteps)]
      exact run_bind_error (ihcall fuel (by rw [Progress.steps_count]; omega))
  | termFault hnext hsteps ht =>
      intro _ _
      obtain rfl := Counter.unbounded_eq_some.1 hnext
      simp only [Task.perform, runPoint, runInside_nil, ht,
        run_bind_ok (run_tick_ok hsteps)]
      exact run_throw _ _
  | done hnext hsteps ht =>
      intro _ _
      obtain rfl := Counter.unbounded_eq_some.1 hnext
      simp only [Task.perform, runPoint, runInside_nil, ht,
        run_bind_ok (run_tick_ok hsteps)]
      exact run_pure _ _
  | goTo hnext hsteps ht _ ih =>
      intro fuel hfuel
      obtain rfl := Counter.unbounded_eq_some.1 hnext
      -- the step just taken fits, so there is fuel for the next block
      obtain ⟨fuel, rfl⟩ : ∃ k, fuel = k + 1 := ⟨fuel - 1, by omega⟩
      simp only [Task.perform, runPoint, runInside_nil, ht,
        run_bind_ok (run_tick_ok hsteps)]
      exact ih fuel (by rw [Progress.steps_count]; omega)

/-- What the machine does for a task is what the rules say, and nothing else. -/
theorem executes_iff
    {task : Task}
    {p q : Progress}
    {r : Except ExecFault Float} :
    Executes .unbounded m limits task p r q ↔
      (task.perform m limits limits.steps).run.run p = (r, q) := by
  constructor
  · intro h
    exact h.run_eq limits.steps (by omega)
  · intro hrun
    obtain ⟨r', q', h⟩ := exists_executes m limits task p
    rw [h.run_eq limits.steps (by omega)] at hrun
    cases hrun
    exact h

/-- A task has one outcome. -/
theorem Executes.unique
    {task : Task}
    {p q q' : Progress}
    {r r' : Except ExecFault Float}
    (h : Executes .unbounded m limits task p r q)
    (h' : Executes .unbounded m limits task p r' q') :
    r' = r ∧ q' = q := by
  have hrun := executes_iff.1 h
  rw [executes_iff.1 h'] at hrun
  exact Prod.mk.inj hrun

/-! ## Counts in words -/

/--
Counters that agree up to the limit and up to the count at the start lead
to the same outcome.
-/
theorem Executes.transfer
    {counter' : Counter}
    {task : Task}
    {p q : Progress}
    {r : Except ExecFault Float}
    (h : Executes counter m limits task p r q)
    (hagree : ∀ n ≤ max p.steps limits.steps, counter' n = counter n) :
    Executes counter' m limits task p r q := by
  have hnow : ∀ {p : Progress} {n : Nat},
      (∀ k ≤ max p.steps limits.steps, counter' k = counter k) →
        counter p.steps = some n → counter' p.steps = some n :=
    fun hagree hnext => (hagree _ (Nat.le_max_left _ _)).trans hnext
  -- a step that fits leads to a count within the limit, from which on the counters agree
  have hlater : ∀ {p : Progress} {n : Nat},
      (∀ k ≤ max p.steps limits.steps, counter' k = counter k) →
        n ≤ limits.steps → ∀ k ≤ max n limits.steps, counter' k = counter k :=
    fun hagree hn k hk => hagree k (by omega)
  induction h with
  | unknown hname => exact .unknown hname
  | known hname _ ih => exact .known hname (ih hagree)
  | tooDeep hdepth => exact .tooDeep hdepth
  | noFunction hdepth hf => exact .noFunction hdepth hf
  | wrongCount hdepth hf harity => exact .wrongCount hdepth hf harity
  | host hdepth hf harity hentry => exact .host hdepth hf harity hentry
  | body hdepth hf harity hentry _ ih => exact .body hdepth hf harity hentry (ih hagree)
  | missing hb => exact .missing hb
  | stuck hb he => exact .stuck hb he
  | enter hb he _ ih => exact .enter hb he (ih hagree)
  | outOfSteps hnext hsteps => exact .outOfSteps (hnow hagree hnext) hsteps
  | fault hnext hsteps hi => exact .fault (hnow hagree hnext) hsteps hi
  | value hnext hsteps hi _ ih =>
      exact .value (hnow hagree hnext) hsteps hi (ih (hlater hagree hsteps))
  | call hnext hsteps hi hcall _ ihcall ih =>
      refine .call (hnow hagree hnext) hsteps hi (ihcall (hlater hagree hsteps)) ?_
      -- the callee gave a value, so the rest starts within the limit
      rcases hcall.within hsteps with hle | hlimit
      · exact ih (hlater hagree hle)
      · cases hlimit
  | callFault hnext hsteps hi _ ihcall =>
      exact .callFault (hnow hagree hnext) hsteps hi (ihcall (hlater hagree hsteps))
  | termFault hnext hsteps ht => exact .termFault (hnow hagree hnext) hsteps ht
  | done hnext hsteps ht => exact .done (hnow hagree hnext) hsteps ht
  | goTo hnext hsteps ht _ ih =>
      exact .goTo (hnow hagree hnext) hsteps ht (ih (hlater hagree hsteps))

/-- Below the largest count of a word nothing is seen of the word. -/
theorem Counter.OfSize.executes_iff
    {size : Nat}
    (hcounter : counter.OfSize size)
    (hlimit : limits.steps + 1 < size)
    {task : Task}
    {p q : Progress}
    {r : Except ExecFault Float}
    (hp : p.steps + 1 < size) :
    Executes counter m limits task p r q ↔ Executes .unbounded m limits task p r q := by
  have hagree : ∀ n ≤ max p.steps limits.steps, counter n = unbounded n :=
    fun n hn => hcounter.eq_succ n (by omega)
  exact ⟨fun h => h.transfer fun n hn => (hagree n hn).symm, fun h => h.transfer hagree⟩

/-! ## Calls one after the other -/

/-- Whom a call from outside is for. -/
inductive Callee where
  | byId (id : FuncId)
  | byName (name : String)
  deriving DecidableEq, Repr

namespace Callee

/-- The function that is called. -/
def function? (m : Module) : Callee → Option Function
  | .byId id => m.function? id
  | .byName name => m.functionNamed? name

/-- Makes a call. -/
def call (m : Module) (limits : Limits) (args : List Float) : Callee → Exec Float
  | .byId id => Machine.call m limits id args
  | .byName name => callNamed m limits name args

/-- What the machine has to do for a call. -/
def task (args : List Float) : Callee → Task
  | .byId id => .call 0 id args
  | .byName name => .named name args

theorem perform_task
    (callee : Callee)
    (args : List Float)
    (fuel : Nat) :
    (callee.task args).perform m limits fuel = callee.call m limits args := by
  cases callee <;> rfl

end Callee

/-- One call, with the progress before it, its result and the progress after it. -/
structure Turn where
  callee : Callee
  args : List Float
  before : Progress
  result : Except ExecFault Float
  after : Progress
  deriving DecidableEq

/--
The calls that are made one after the other on one machine, each from the progress that the
last one left.
-/
def turns (m : Module) (limits : Limits) : List (Callee × List Float) → Progress → List Turn
  | [], _ => []
  | (callee, args) :: rest, p =>
    let ran := (callee.call m limits args).run.run p
    ⟨callee, args, p, ran.1, ran.2⟩ :: turns m limits rest ran.2

/-- A turn is the outcome of its task. -/
theorem executes_of_mem_turns
    {calls : List (Callee × List Float)}
    {p : Progress}
    {t : Turn}
    (ht : t ∈ turns m limits calls p) :
    Executes .unbounded m limits (t.callee.task t.args) t.before t.result t.after := by
  induction calls generalizing p with
  | nil => cases ht
  | cons first rest ih =>
      rcases List.mem_cons.1 ht with rfl | hrest
      · rw [executes_iff, Callee.perform_task]
        rfl
      · exact ih hrest

/-- A function with a body that gives a value has taken its steps within the budget. -/
theorem Executes.within_of_hasBody
    {callee : Callee}
    {args : List Float}
    {p q : Progress}
    {x : Float}
    (h : Executes .unbounded m limits (callee.task args) p (.ok x) q)
    {f : Function}
    (hf : callee.function? m = some f)
    (hbody : f.hasBody = true) :
    q.steps ≤ limits.steps := by
  have hcall : ∀ {id}, m.function? id = some f →
      Executes .unbounded m limits (.call 0 id args) p (.ok x) q →
      q.steps ≤ limits.steps := by
    intro id hid h
    -- the host's answer is computed, so the rules can be told apart only if the
    -- result is a variable
    generalize hr : (Except.ok x : Except ExecFault Float) = r at h
    cases h with
    | host _ hf' _ hentry =>
        obtain rfl : f = _ := Option.some.inj (hid.symm.trans hf')
        simp [Function.hasBody, Function.entry?_eq_none_iff.1 hentry] at hbody
    | body _ _ _ _ hrun =>
        subst hr
        exact hrun.within_of_ok
    | _ => cases hr
  cases callee with
  | byId id => exact hcall hf h
  | byName name =>
      cases h with
      | known hname h =>
          refine hcall ?_ h
          simpa [Callee.function?, Module.functionNamed?, hname] using hf

/--
Calls are made one after the other on one machine, of a module that need not be well formed,
with any limits on the depth and any limit on the steps but the largest count of a word.
Each of them that starts below the largest count comes to an end by finitely many rules, in
one way only, whatever loops and calls there are.  It takes no step back, and counts at most
one step more than the limit or than there were before.  After a value from a function with
a body the steps are within the limit, and a call that starts within the limit leaves it
only by ending with the step limit.
-/
theorem turns_within_budget
    (m : Module)
    (limits : Limits)
    {size : Nat}
    {counter : Counter}
    (hcounter : counter.OfSize size)
    (hlimit : limits.steps + 1 < size)
    (calls : List (Callee × List Float))
    (p : Progress) :
    ∀ t ∈ turns m limits calls p, t.before.steps + 1 < size →
      (∀ r q, Executes counter m limits (t.callee.task t.args) t.before r q ↔
        r = t.result ∧ q = t.after) ∧
      t.before.steps ≤ t.after.steps ∧
      t.after.steps ≤ max t.before.steps limits.steps + 1 ∧
      (∀ f x, t.callee.function? m = some f → f.hasBody = true → t.result = .ok x →
        t.after.steps ≤ limits.steps) ∧
      (t.before.steps ≤ limits.steps → limits.steps < t.after.steps →
        t.result = .error (.stepLimit limits.steps)) := by
  intro t ht hbefore
  have h := executes_of_mem_turns ht
  refine ⟨fun r q => ?_, h.le_steps, h.steps_le_max, ?_, ?_⟩
  · rw [hcounter.executes_iff hlimit hbefore]
    constructor
    · exact h.unique
    · rintro ⟨rfl, rfl⟩
      exact h
  · intro f x hf hbody hx
    rw [hx] at h
    exact h.within_of_hasBody hf hbody
  · intro hstart hafter
    rcases h.within hstart with hle | hlimited
    · omega
    · exact hlimited

/-- A function that jumps to its only block for ever. -/
def spin : Function :=
  ⟨⟨0⟩, "spin", [], [⟨⟨0⟩, "loop", [], some (.jump ⟨0⟩)⟩], 0, 1⟩

/-- The function, and one that calls itself for ever. -/
def unending : Module :=
  ⟨[spin, ⟨⟨1⟩, "dive", [],
      [⟨⟨0⟩, "entry", [⟨⟨0⟩, .call ⟨1⟩ "dive" []⟩], some (.ret (.result ⟨0⟩))⟩], 1, 1⟩],
    [("spin", ⟨0⟩), ("dive", ⟨1⟩)], 2⟩

/-- A call of each of them. -/
def unendingCalls : List (Callee × List Float) :=
  [(.byId ⟨1⟩, []), (.byName "spin", [])]

theorem unending_within_budget :
    turns unending ⟨1000000000, 5⟩ unendingCalls ⟨0, []⟩ =
        [⟨.byId ⟨1⟩, [], ⟨0, []⟩, .error (.stepLimit 5), ⟨6, []⟩⟩,
          ⟨.byName "spin", [], ⟨6, []⟩, .error (.stepLimit 5), ⟨7, []⟩⟩] ∧
      (∀ r q,
        Executes (.wrapping UInt64.size) unending ⟨1000000000, 5⟩ (.call 0 ⟨1⟩ [])
          ⟨0, []⟩ r q ↔ r = .error (.stepLimit 5) ∧ q = ⟨6, []⟩) ∧
      ∀ r q,
        Executes (.checked UInt64.size) unending ⟨1000000000, 5⟩ (.named "spin" [])
          ⟨6, []⟩ r q ↔ r = .error (.stepLimit 5) ∧ q = ⟨7, []⟩ := by
  have hturns : turns unending ⟨1000000000, 5⟩ unendingCalls ⟨0, []⟩ =
      [⟨.byId ⟨1⟩, [], ⟨0, []⟩, .error (.stepLimit 5), ⟨6, []⟩⟩,
        ⟨.byName "spin", [], ⟨6, []⟩, .error (.stepLimit 5), ⟨7, []⟩⟩] := by
    decide +kernel
  have hdive := turns_within_budget unending ⟨1000000000, 5⟩
    (Counter.ofSize_wrapping UInt64.size (by decide)) (by decide) unendingCalls ⟨0, []⟩
    ⟨.byId ⟨1⟩, [], ⟨0, []⟩, .error (.stepLimit 5), ⟨6, []⟩⟩ (by simp [hturns]) (by decide)
  have hspin := turns_within_budget unending ⟨1000000000, 5⟩
    (Counter.ofSize_checked UInt64.size) (by decide) unendingCalls ⟨0, []⟩
    ⟨.byName "spin", [], ⟨6, []⟩, .error (.stepLimit 5), ⟨7, []⟩⟩
    (by simp [hturns]) (by decide)
  exact ⟨hturns, hdive.1, hspin.1⟩

/-! ## Limits at the largest count -/

/-- The jump has been taken, or is about to be. -/
inductive Spinning : Task → Prop
  | before (depth : Nat) (frame : Frame) (prev : Option BlockId) :
      Spinning (.run depth spin frame (.before prev ⟨0⟩))
  | inside (depth : Nat) (frame : Frame) :
      Spinning (.run depth spin frame (.inside ⟨⟨0⟩, "loop", [], some (.jump ⟨0⟩)⟩ []))

/-- No count is beyond a limit at the largest one, so that the jump is taken for ever. -/
theorem not_executes_of_spinning
    {size : Nat}
    (hcounter : counter.OfSize size)
    (hlimit : size ≤ limits.steps + 1)
    {task : Task}
    {p q : Progress}
    {r : Except ExecFault Float}
    (hspinning : Spinning task) :
    ¬Executes counter m limits task p r q := by
  intro h
  induction h with
  | missing hb =>
      cases hspinning
      cases hb
  | stuck hb he =>
      cases hspinning
      cases hb
      cases he
  | enter hb he _ ih =>
      cases hspinning with
      | before =>
          cases hb
          cases he
          exact ih (.inside _ _)
  | outOfSteps hnext hsteps =>
      have hlt := hcounter.lt_size _ _ hnext
      omega
  | termFault _ _ ht =>
      cases hspinning
      cases ht
  | done _ _ ht =>
      cases hspinning
      cases ht
  | goTo _ _ ht _ ih =>
      cases hspinning with
      | inside =>
          cases ht
          exact ih (.before _ _ _)
  | _ => cases hspinning

/-- With the largest count of a word as the limit a jump to itself has no outcome. -/
theorem spin_without_end :
    (¬∃ r q,
        Executes (.wrapping UInt64.size) unending ⟨1000, UInt64.size - 1⟩ (.named "spin" [])
          ⟨0, []⟩ r q) ∧
      ¬∃ r q,
        Executes (.checked UInt64.size) unending ⟨1000, UInt64.size - 1⟩ (.named "spin" [])
          ⟨0, []⟩ r q := by
  have hspin : ∀ counter : Counter, counter.OfSize UInt64.size → ¬∃ r q,
      Executes counter unending ⟨1000, UInt64.size - 1⟩ (.named "spin" []) ⟨0, []⟩ r q := by
    rintro counter hcounter ⟨r, q, h⟩
    cases h with
    | unknown hname => cases hname
    | known hname h =>
        cases hname
        cases h with
        | tooDeep hdepth => cases hdepth
        | noFunction _ hf => cases hf
        | wrongCount _ hf harity =>
            cases hf
            exact harity rfl
        | host _ hf _ hentry =>
            cases hf
            cases hentry
        | body _ hf _ hentry h =>
            cases hf
            cases hentry
            exact not_executes_of_spinning hcounter (by decide) (.before 0 _ none) h
  exact ⟨hspin _ (Counter.ofSize_wrapping _ (by decide)),
    hspin _ (Counter.ofSize_checked _)⟩

end Machine
end ScalarSsa
