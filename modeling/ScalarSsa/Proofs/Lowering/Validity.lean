import Mathlib
import ScalarSsa.Proofs.Lowering.Attempts

/-!
# Which definitions are valid

**Input.** A module and a definition.

**Definitions.** A definition is `Valid` if its name has no body, its parameters are
distinct, a declaration of its name has its arity, and its body uses parameters, known
operators and functions that take as many arguments as they get.  `Definition.steps` lists
what has to be done for a definition in the order in which it is done.  A `Step` has a fault
or issues identifiers, and `violation?` is the first fault.

**Results.** `violation?_eq_none_iff`: a definition without a fault is valid.
`signatureError?_eq`: the faults of a signature are the errors of declaring it.
`Emits.issues`: lowering issues the identifiers that its steps issue.
-/

namespace ScalarSsa

open Lowering

/-! ## Validity -/

/--
A name can be called with a number of arguments from the body of a
function with a signature.
-/
def Signature.CanCall (s : Signature) (m : Module) (name : String) (given : Nat) : Prop :=
  name = s.name ∧ given = s.arity ∨ ∃ f ∈ m.functions, f.name = name ∧ given = f.arity

/-- An expression that the body of a function with a signature may hold. -/
inductive Expr.Valid (m : Module) (s : Signature) : Expr → Prop
  | number (x : Float) : Valid m s (.number x)
  | var {name : String} (h : name ∈ s.params) : Valid m s (.var name)
  | binary {op : Char} {lhs rhs : Expr} (hop : op ∈ ['+', '-', '*', '<'])
      (hlhs : Valid m s lhs) (hrhs : Valid m s rhs) :
      Valid m s (.binary op lhs rhs)
  | call {name : String} {args : List Expr} (hcallee : s.CanCall m name args.length)
      (hargs : ∀ arg ∈ args, Valid m s arg) : Valid m s (.call name args)
  | cond {test thenBranch elseBranch : Expr} (htest : Valid m s test)
      (hthen : Valid m s thenBranch)
      (helse : Valid m s elseBranch) : Valid m s (.cond test thenBranch elseBranch)

/-- A definition that a module may get. -/
structure Definition.Valid (m : Module) (d : Definition) : Prop where
  undefined : ∀ f ∈ m.functions, f.name = d.signature.name → f.hasBody = false
  distinct : d.signature.params.Nodup
  arity : ∀ f ∈ m.functions, f.name = d.signature.name → f.arity = d.signature.arity
  body : d.body.Valid m d.signature

/-! ## Steps -/

/-- One thing that has to be done for a definition. -/
inductive Step where
  | title
  | params
  | arity
  | entry
  | mention (name : String)
  | operator (op : Char)
  | callee (name : String) (given : Nat)
  | call
  | fork
  | join
  deriving DecidableEq, Repr

mutual

/--
What has to be done for an expression: operands come before their operator, a callee before
its arguments.
-/
def Expr.steps : Expr → List Step
  | .number _ => []
  | .var name => [.mention name]
  | .binary op lhs rhs => lhs.steps ++ (rhs.steps ++ [.operator op])
  | .call name args => .callee name args.length :: (Expr.stepsAll args ++ [.call])
  | .cond test thenBranch elseBranch =>
    test.steps ++ .fork :: (thenBranch.steps ++ (elseBranch.steps ++ [.join]))

/-- What has to be done for expressions from left to right. -/
def Expr.stepsAll : List Expr → List Step
  | [] => []
  | e :: rest => e.steps ++ Expr.stepsAll rest

end

/-- What has to be done for a definition. -/
def Definition.steps (d : Definition) : List Step :=
  [.title, .params, .arity, .entry] ++ d.body.steps

/--
The number of arguments with which a name has to be called from the body of a
function with a signature.
-/
def Signature.arityOf? (s : Signature) (m : Module) (name : String) : Option Nat :=
  if name = s.name then some s.arity
  else (m.functions.find? fun f => f.name = name).map Function.arity

/-- The first parameter that stands among those before it. -/
def Signature.repeated? (s : Signature) : Option String :=
  (List.range s.params.length).findSome? fun i => s.params[i]?.filter fun param =>
    (s.params.take i).contains param

namespace Step

/-- What is wrong with a step. -/
def fault? (m : Module) (s : Signature) : Step → Option LowerError
  | .title =>
    if m.functions.any fun f => f.name = s.name && f.hasBody then
      some (.redefinition s.name)
    else none
  | .params => s.repeated?.map fun param => .duplicateParameter param s.name
  | .arity => m.functions.findSome? fun f =>
    if f.name = s.name ∧ f.arity ≠ s.arity then some (.arityConflict s.name f.arity s.arity)
    else none
  | .mention name => if name ∈ s.params then none else some (.unknownVariable name)
  | .operator op => if op ∈ ['+', '-', '*', '<'] then none else some (.unknownOperator op)
  | .callee name given =>
    match s.arityOf? m name with
    | none => some (.unknownFunction name)
    | some expected =>
      if expected = given then none else some (.arityMismatch name expected given)
  | .entry | .call | .fork | .join => none

/-- How many blocks a step issues. -/
def blocks : Step → Nat
  | .entry => 1
  | .fork => 3
  | _ => 0

/-- How many values a step issues. -/
def values : Step → Nat
  | .operator op => if op = '<' then 2 else 1
  | .call | .fork | .join => 1
  | _ => 0

/-- What all of some steps issue. -/
def total (count : Step → Nat) (steps : List Step) : Nat :=
  (steps.map count).sum

/-- The steps before the first one with a fault. -/
def before (fault? : Step → Option LowerError) (steps : List Step) : List Step :=
  steps.takeWhile fun step => (fault? step).isNone

end Step

namespace Definition

/-- What is wrong with the first step that has a fault. -/
def violation? (m : Module) (d : Definition) : Option LowerError :=
  d.steps.findSome? (Step.fault? m d.signature)

/-- The steps that are taken for a definition. -/
def performed (m : Module) (d : Definition) : List Step :=
  Step.before (Step.fault? m d.signature) d.steps

end Definition

/-! ## Counting -/

theorem findSome?_cons_or
    {α β : Type}
    (f : α → Option β)
    (a : α)
    (rest : List α) :
    (a :: rest).findSome? f = (f a).or (rest.findSome? f) := by
  rw [List.findSome?_cons]
  cases f a <;> rfl

namespace Step

variable {count : Step → Nat} {fault? : Step → Option LowerError}

theorem values_operator
    (op : Char) :
    values (.operator op) = if op = '<' then 2 else 1 :=
  rfl

theorem values_callee
    (name : String)
    (given : Nat) :
    values (.callee name given) = 0 :=
  rfl

theorem values_one :
    values .call = 1 ∧ values .fork = 1 ∧ values .join = 1 :=
  ⟨rfl, rfl, rfl⟩

@[simp] theorem total_nil :
    total count [] = 0 :=
  rfl

@[simp] theorem total_cons
    (step : Step)
    (steps : List Step) :
    total count (step :: steps) = count step + total count steps := by
  simp [total]

@[simp] theorem total_append
    (steps steps' : List Step) :
    total count (steps ++ steps') = total count steps + total count steps' := by
  simp [total]

theorem before_append_of_none
    {steps : List Step}
    (h : steps.findSome? fault? = none)
    (rest : List Step) :
    before fault? (steps ++ rest) = steps ++ before fault? rest := by
  refine List.takeWhile_append_of_pos fun step hstep => ?_
  rw [List.findSome?_eq_none_iff.1 h step hstep]
  rfl

theorem before_of_none
    {steps : List Step}
    (h : steps.findSome? fault? = none) :
    before fault? steps = steps := by
  simpa [before] using before_append_of_none h []

theorem total_before_le
    (steps rest : List Step) :
    total count (before fault? steps) ≤ total count (before fault? (steps ++ rest)) := by
  cases h : steps.findSome? fault? with
  | none =>
      rw [before_append_of_none h, before_of_none h, total_append]
      exact Nat.le_add_right _ _
  | some e =>
      refine Nat.le_of_eq (congrArg (total count) ?_)
      obtain ⟨before', step, after, rfl, hstep, hbefore⟩ := List.findSome?_eq_some_iff.1 h
      have hstop : ∀ more, before fault? (before' ++ step :: more) = before' := by
        intro more
        rw [before_append_of_none (List.findSome?_eq_none_iff.2 hbefore)]
        simp [before, hstep]
      rw [hstop, List.append_assoc, List.cons_append, hstop]

/--
What the steps of two parts issue, up to the first fault, is enough for
each part in its turn.
-/
theorem room_append
    {steps rest : List Step}
    {start bound : Nat}
    (h : start + total count (before fault? (steps ++ rest)) ≤ bound) :
    start + total count (before fault? steps) ≤ bound ∧
      (steps.findSome? fault? = none →
        start + total count steps ≤ bound ∧
          start + total count steps + total count (before fault? rest) ≤ bound) := by
  have hle : total count (before fault? steps) ≤
      total count (before fault? (steps ++ rest)) := total_before_le steps rest
  refine ⟨by omega, fun hnone => ?_⟩
  rw [before_append_of_none hnone, total_append] at h
  exact ⟨by omega, by omega⟩

theorem room_cons
    {step : Step}
    {rest : List Step}
    {start bound : Nat}
    (h : start + total count (before fault? (step :: rest)) ≤ bound)
    (hnone : fault? step = none) :
    start + count step + total count (before fault? rest) ≤ bound := by
  have hnone' : [step].findSome? fault? = none := by simpa using hnone
  have h' : start + total count (before fault? ([step] ++ rest)) ≤ bound := h
  have hroom := ((room_append h').2 hnone').2
  simpa using hroom

end Step

/-! ## Steps without a fault -/

section Fault

variable {m : Module} {s : Signature}

/-- The first repeated parameter is the one that is found. -/
theorem repeatedParam?_eq
    (seen params : List String) :
    repeatedParam? seen params = (List.range params.length).findSome? fun i =>
      params[i]?.filter fun param => (seen ++ params.take i).contains param := by
  induction params generalizing seen with
  | nil => rfl
  | cons first rest ih =>
      rw [repeatedParam?, ih, List.length_cons, List.range_succ_eq_map, List.findSome?_cons,
        List.findSome?_map]
      by_cases hseen : first ∈ seen
      · simp [hseen, Option.filter]
      · have hswap : ∀ i (param : String),
            (param = first ∨ param ∈ seen ∨ param ∈ rest.take i) =
            (param ∈ seen ∨ param = first ∨ param ∈ rest.take i) :=
              fun i param => propext or_left_comm
        simp [hseen, Option.filter, Function.comp_def, hswap]

theorem repeatedParam?_eq_repeated?
    (s : Signature) :
    repeatedParam? [] s.params = s.repeated? := by
  rw [repeatedParam?_eq]
  rfl

theorem repeated?_eq_none_iff :
    s.repeated? = none ↔ s.params.Nodup := by
  rw [← repeatedParam?_eq_repeated?, repeatedParam?_eq_none_iff]
  simp

theorem arityOf?_eq_some_iff
    (hm : m.Coherent)
    (harity : ∀ f ∈ m.functions, f.name = s.name → f.arity = s.arity)
    {name : String}
    {given : Nat} :
    s.arityOf? m name = some given ↔ s.CanCall m name given := by
  unfold Signature.arityOf? Signature.CanCall
  by_cases hname : name = s.name
  · simp only [hname, if_true, Option.some.injEq, true_and]
    constructor
    · exact fun h => .inl h.symm
    · rintro (h | ⟨f, hf, hfname, h⟩)
      · exact h.symm
      · rw [h, harity f hf hfname]
  · simp only [hname, if_false, false_and, false_or, Option.map_eq_some_iff]
    constructor
    · rintro ⟨f, hf, h⟩
      exact ⟨f, List.mem_of_find?_eq_some hf, by simpa using List.find?_some hf, h.symm⟩
    · rintro ⟨f, hf, hfname, h⟩
      cases hfind : m.functions.find? (fun f => f.name = name) with
      | none => simpa [hfname] using List.find?_eq_none.1 hfind f hf
      | some g =>
          have hg : g.name = name := by simpa using List.find?_some hfind
          rw [hm.eq_of_name_eq (List.mem_of_find?_eq_some hfind) hf (hg.trans hfname.symm)]
          exact ⟨f, rfl, h.symm⟩

mutual

/-- An expression without a faulty step is valid. -/
theorem Expr.steps_eq_none_iff
    (hm : m.Coherent)
    (harity : ∀ f ∈ m.functions, f.name = s.name → f.arity = s.arity) :
    ∀ e : Expr, e.steps.findSome? (Step.fault? m s) = none ↔ e.Valid m s
  | .number x => by simp [Expr.steps, Expr.Valid.number]
  | .var name => by
      simp only [Expr.steps, List.findSome?_singleton, Step.fault?, ite_eq_left_iff,
        reduceCtorEq, imp_false, not_not]
      constructor
      · exact .var
      · rintro ⟨⟩
        assumption
  | .binary op lhs rhs => by
      simp only [Expr.steps, List.findSome?_append, Option.or_eq_none_iff,
        List.findSome?_singleton, Step.fault?,
        ite_eq_left_iff, reduceCtorEq, imp_false, not_not,
        Expr.steps_eq_none_iff hm harity lhs,
        Expr.steps_eq_none_iff hm harity rhs]
      constructor
      · rintro ⟨hlhs, hrhs, hop⟩
        exact .binary hop hlhs hrhs
      · rintro ⟨⟩
        exact ⟨‹_›, ‹_›, ‹_›⟩
  | .call name args => by
      have hcallee : Step.fault? m s (.callee name args.length) = none ↔
          s.CanCall m name args.length := by
        rw [← arityOf?_eq_some_iff hm harity]
        simp only [Step.fault?]
        cases s.arityOf? m name with
        | none => simp
        | some expected => simp
      rw [Expr.steps, findSome?_cons_or, List.findSome?_append, Option.or_eq_none_iff,
        Option.or_eq_none_iff, hcallee,
        Expr.stepsAll_eq_none_iff hm harity args]
      constructor
      · rintro ⟨hname, hargs, -⟩
        exact .call hname hargs
      · rintro ⟨⟩
        exact ⟨‹_›, ‹_›, rfl⟩
  | .cond test thenBranch elseBranch => by
      simp only [Expr.steps, List.findSome?_append, findSome?_cons_or, List.findSome?_nil,
        Option.or_eq_none_iff,
        Step.fault?, and_true, true_and, Expr.steps_eq_none_iff hm harity test,
        Expr.steps_eq_none_iff hm harity thenBranch,
          Expr.steps_eq_none_iff hm harity elseBranch]
      constructor
      · rintro ⟨htest, hthen, helse⟩
        exact .cond htest hthen helse
      · rintro ⟨⟩
        exact ⟨‹_›, ‹_›, ‹_›⟩

theorem Expr.stepsAll_eq_none_iff
    (hm : m.Coherent)
    (harity : ∀ f ∈ m.functions, f.name = s.name → f.arity = s.arity) :
    ∀ es : List Expr, (Expr.stepsAll es).findSome? (Step.fault? m s) = none ↔
      ∀ e ∈ es, e.Valid m s
  | [] => by simp [Expr.stepsAll]
  | e :: rest => by
      simp only [Expr.stepsAll, List.findSome?_append, Option.or_eq_none_iff,
        Expr.steps_eq_none_iff hm harity e,
        Expr.stepsAll_eq_none_iff hm harity rest, List.forall_mem_cons]

end

theorem violation?_eq_none_iff
    (hm : m.Coherent)
    (d : Definition) :
    d.violation? m = none ↔ d.Valid m := by
  have htitle : Step.fault? m d.signature .title = none ↔
      ∀ f ∈ m.functions, f.name = d.signature.name → f.hasBody = false := by
    simp [Step.fault?]
  have harity : Step.fault? m d.signature .arity = none ↔
      ∀ f ∈ m.functions, f.name = d.signature.name → f.arity = d.signature.arity := by
    simp [Step.fault?, List.findSome?_eq_none_iff]
  have hparams : Step.fault? m d.signature .params = none ↔ d.signature.params.Nodup := by
    rw [← repeated?_eq_none_iff]
    simp [Step.fault?]
  have hentry : Step.fault? m d.signature .entry = none := rfl
  simp only [Definition.violation?, Definition.steps, List.cons_append, List.nil_append,
    findSome?_cons_or,
    Option.or_eq_none_iff, htitle, hparams, harity, hentry, true_and]
  constructor
  · rintro ⟨hundefined, hdistinct, hsame, hbody⟩
    exact ⟨hundefined, hdistinct, hsame, (Expr.steps_eq_none_iff hm hsame d.body).1 hbody⟩
  · intro h
    exact ⟨h.undefined, h.distinct, h.arity,
      (Expr.steps_eq_none_iff hm h.arity d.body).2 h.body⟩

section Named

variable (hm : m.Coherent) {f : Function} (hf : f ∈ m.functions) (hname : f.name = s.name)

include hm hf hname

theorem fault?_title_eq :
    Step.fault? m s .title = if f.hasBody then some (.redefinition s.name) else none := by
  have hany : (m.functions.any fun g => g.name = s.name && g.hasBody) = f.hasBody := by
    rw [Bool.eq_iff_iff]
    simp only [List.any_eq_true, Bool.and_eq_true, decide_eq_true_eq]
    constructor
    · rintro ⟨g, hg, hgname, hbody⟩
      rwa [hm.eq_of_name_eq hg hf (hgname.trans hname.symm)] at hbody
    · exact fun hbody => ⟨f, hf, hname, hbody⟩
  simp only [Step.fault?, hany]

theorem fault?_arity_eq :
    Step.fault? m s .arity =
      if f.arity = s.arity then none else some (.arityConflict s.name f.arity s.arity) := by
  cases hfound : Step.fault? m s .arity with
  | none =>
      have hnone := List.findSome?_eq_none_iff.1 hfound f hf
      have hsame : f.arity = s.arity := by simpa [hname] using hnone
      rw [if_pos hsame]
  | some e =>
      obtain ⟨g, hg, hge⟩ := List.exists_of_findSome?_eq_some hfound
      split at hge
      · next hfacts =>
        obtain rfl := hm.eq_of_name_eq hg hf (hfacts.1.trans hname.symm)
        rw [if_neg hfacts.2, ← hge]
      · cases hge

end Named

/-- What is wrong with a signature is found in the order of the steps. -/
theorem signatureError?_eq
    (hm : m.Coherent)
    (s : Signature) :
    signatureError? m s = [.title, .params, .arity].findSome? (Step.fault? m s) := by
  have hparams : Step.fault? m s .params = s.repeated?.map fun param =>
    .duplicateParameter param s.name := rfl
  simp only [findSome?_cons_or, List.findSome?_nil, Option.or_none, hparams]
  cases hfind : m.find? s.name with
  | none =>
      have hfree := hm.find?_eq_none_iff.1 hfind
      have hexisting : existing? m s.name = none := by simp [existing?, hfind]
      have htitle : Step.fault? m s .title = none := by
        simpa [Step.fault?] using fun f hf hname => absurd hname (hfree f hf)
      have harity : Step.fault? m s .arity = none := by
        simpa [Step.fault?, List.findSome?_eq_none_iff] using fun f hf hname =>
          absurd hname (hfree f hf)
      simp only [signatureError?, hexisting, repeatedParam?_eq_repeated?, htitle, harity]
      cases s.repeated? <;> rfl
  | some id =>
      obtain ⟨f, hf, hname, rfl⟩ := hm.find?_eq_some_iff.1 hfind
      have hexisting : existing? m s.name = some (f.id, f.hasBody, f.arity) := by
        simp [existing?, hfind, hm.function?_eq_some_iff.2 ⟨hf, rfl⟩]
      simp only [signatureError?, hexisting, repeatedParam?_eq_repeated?,
        fault?_title_eq hm hf hname,
        fault?_arity_eq hm hf hname]
      cases f.hasBody with
      | true => rfl
      | false => cases s.repeated? <;> rfl

/-- What is wrong with a definition is wrong with its signature, or else with its body. -/
theorem violation?_eq
    (hm : m.Coherent)
    (d : Definition) :
    d.violation? m =
      (signatureError? m d.signature).or
        (d.body.steps.findSome? (Step.fault? m d.signature)) := by
  have hsteps : d.steps = [.title, .params, .arity] ++ .entry :: d.body.steps := rfl
  have hentry : Step.fault? m d.signature .entry = none := rfl
  rw [Definition.violation?, hsteps, List.findSome?_append, ← signatureError?_eq hm,
    findSome?_cons_or, hentry,
    Option.none_or]

/-- No fault is that of the builder or of the check. -/
theorem kind_of_violation?
    {d : Definition}
    {e : LowerError}
    (h : d.violation? m = some e) :
    e.kind ≠ .invalidInsertPoint ∧ e.kind ≠ .verification := by
  obtain ⟨step, -, hfault⟩ := List.exists_of_findSome?_eq_some h
  cases step with
  | title =>
      simp only [Step.fault?, Option.ite_none_right_eq_some, Option.some.injEq] at hfault
      simp [← hfault.2, LowerError.kind]
  | params =>
      obtain ⟨param, -, rfl⟩ := Option.map_eq_some_iff.1 hfault
      simp [LowerError.kind]
  | arity =>
      obtain ⟨f, -, hfound⟩ := List.exists_of_findSome?_eq_some hfault
      simp only [Option.ite_none_right_eq_some, Option.some.injEq] at hfound
      simp [← hfound.2, LowerError.kind]
  | mention name =>
      simp only [Step.fault?, Option.ite_none_left_eq_some, Option.some.injEq] at hfault
      simp [← hfault.2, LowerError.kind]
  | operator op =>
      simp only [Step.fault?, Option.ite_none_left_eq_some, Option.some.injEq] at hfault
      simp [← hfault.2, LowerError.kind]
  | callee name given =>
      simp only [Step.fault?] at hfault
      split at hfault
      · cases hfault
        simp [LowerError.kind]
      · simp only [Option.ite_none_left_eq_some, Option.some.injEq] at hfault
        simp [← hfault.2, LowerError.kind]
  | entry => cases hfault
  | call => cases hfault
  | fork => cases hfault
  | join => cases hfault

/--
A definition whose signature can be declared has its first block appended, and then
its body is lowered.
-/
theorem performed_eq
    (hm : m.Coherent)
    {d : Definition}
    (hvalid : signatureError? m d.signature = none) :
    d.performed m =
      [.title, .params, .arity, .entry] ++
        Step.before (Step.fault? m d.signature) d.body.steps := by
  rw [signatureError?_eq hm] at hvalid
  have hsteps : d.steps = [.title, .params, .arity] ++ ([.entry] ++ d.body.steps) := rfl
  rw [Definition.performed, hsteps, Step.before_append_of_none hvalid,
    Step.before_append_of_none rfl]
  rfl

end Fault

/-! ## Identifiers -/

/-- Lowering issues the identifiers that its steps issue. -/
theorem Emits.issues
    {m : Module}
    {scope : Scope}
    {es : List Expr}
    {s t : Site}
    {os : List Operand}
    (h : Emits m scope es s os t) :
    t.func.nextBlock = s.func.nextBlock + Step.total Step.blocks (Expr.stepsAll es) ∧
      t.func.nextValue = s.func.nextValue + Step.total Step.values (Expr.stepsAll es) := by
  induction h with
  | nil => exact ⟨rfl, rfl⟩
  | cons _ _ ihhead ihtail =>
      simp only [Expr.stepsAll, List.append_nil] at ihhead
      simp only [Expr.stepsAll, Step.total_append]
      omega
  | number => exact ⟨rfl, rfl⟩
  | var _ => exact ⟨rfl, rfl⟩
  | @arith op a _ _ _ _ _ _ _ hop _ _ ihlhs ihrhs =>
      have hne : op ≠ '<' := by
        rintro rfl
        simp [Arith.ofChar?] at hop
      simp only [Expr.stepsAll, List.append_nil] at ihlhs ihrhs
      simp only [Expr.stepsAll, Expr.steps, List.append_nil, Step.total_append,
        Step.total_cons, Step.total_nil,
        Step.blocks, Step.values_operator, hne, if_false, Site.nextBlock_push,
          Site.nextValue_push]
      omega
  | less _ _ ihlhs ihrhs =>
      simp only [Expr.stepsAll, List.append_nil] at ihlhs ihrhs
      simp only [Expr.stepsAll, Expr.steps, List.append_nil, Step.total_append,
        Step.total_cons, Step.total_nil,
        Step.blocks, Step.values_operator, if_true, Site.nextBlock_push,
          Site.nextValue_push]
      omega
  | call _ _ _ _ ihargs =>
      simp only [Expr.stepsAll, Expr.steps, List.append_nil, Step.total_append,
        Step.total_cons, Step.total_nil,
        Step.blocks, Step.values_callee, Step.values_one, Site.nextBlock_push,
          Site.nextValue_push]
      omega
  | cond _ _ _ ihtest ihthen ihelse =>
      simp only [Expr.stepsAll, List.append_nil, Site.nextBlock_fork, Site.nextValue_fork,
        Site.func_moveTo] at ihtest ihthen ihelse
      simp only [Expr.stepsAll, Expr.steps, List.append_nil, Step.total_append,
        Step.total_cons, Step.total_nil,
        Step.blocks, Step.values_one, Site.nextBlock_join, Site.nextValue_join]
      omega

end ScalarSsa
