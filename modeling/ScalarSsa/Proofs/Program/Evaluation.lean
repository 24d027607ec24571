import ScalarSsa.Program.Basic
import ScalarSsa.Machine.Fault

/-!
# Evaluating programs directly

**Input.** A program, which is a list of items, and one of its functions with arguments.

**Definitions.** `Expr.eval` follows the expression: it knows neither blocks nor
instructions.  Names stand for the doubles of an environment, and functions are found by
their names among the items: `Program.call` evaluates the body of a definition, and calls
the host for a name that is only declared.

**Results.** An `Evaluation` holds the host calls that were made besides the double or the
fault.  The number of open calls is limited, host calls included.
-/

namespace ScalarSsa

/--
What evaluating comes to: the host calls that are made, the newest first, and a value or the
reason why there is none.
-/
structure Evaluation (α : Type) where
  calls : List HostCall
  result : Except ExecFault α

namespace Evaluation

instance : Monad Evaluation where
  pure a := ⟨[], .ok a⟩
  bind x next :=
    match x.result with
    | .ok a => ⟨(next a).calls ++ x.calls, (next a).result⟩
    | .error e => ⟨x.calls, .error e⟩

/-- There is no value. -/
def fault {α : Type} (e : ExecFault) : Evaluation α :=
  ⟨[], .error e⟩

/-- A call of the host. -/
def host (call : HostCall) : Evaluation Float :=
  ⟨[call], call.result.mapError .host⟩

/-- Evaluation goes on with a value that is already there. -/
theorem bind_of_ok
    {α β : Type}
    {x : Evaluation α}
    {a : α}
    (next : α → Evaluation β)
    (h : x.result = .ok a) :
    x >>= next = ⟨(next a).calls ++ x.calls, (next a).result⟩ := by
  simp only [bind, h]

/-- Evaluation ends where there is no value. -/
theorem bind_of_error
    {α β : Type}
    {x : Evaluation α}
    {e : ExecFault}
    (next : α → Evaluation β)
    (h : x.result = .error e) :
    x >>= next = ⟨x.calls, .error e⟩ := by
  simp only [bind, h]

end Evaluation

/--
The double of an operator at two doubles; a comparison is one if it holds or the
doubles are unordered.
-/
def operator? (op : Char) (x y : Float) : Option Float :=
  if op = '+' then some (x + y)
  else if op = '-' then some (x - y)
  else if op = '*' then some (x * y)
  else if op = '<' then some (if x.isNaN || y.isNaN || x < y then 1.0 else 0.0)
  else none

mutual

/-- The value of an expression, given how functions are called and what names stand for. -/
def Expr.eval (call : String → List Float → Evaluation Float)
    (env : List (String × Float)) :
    Expr → Evaluation Float
  | .number x => pure x
  | .var name =>
    match env.lookup name with
    | some x => pure x
    | none => .fault (.unknownName name)
  | .binary op lhs rhs => do
    let x ← lhs.eval call env
    let y ← rhs.eval call env
    match operator? op x y with
    | some z => pure z
    | none => .fault (.unknownName op.toString)
  | .call name args => do
    let values ← Expr.evalAll call env args
    call name values
  | .cond test thenBranch elseBranch => do
    let x ← test.eval call env
    -- A NaN counts as zero: only what is ordered and different from zero leads into the
    -- first branch.
    if !x.isNaN && x != 0.0 then thenBranch.eval call env else elseBranch.eval call env

/-- The values of expressions from left to right. -/
def Expr.evalAll (call : String → List Float → Evaluation Float)
    (env : List (String × Float)) :
    List Expr → Evaluation (List Float)
  | [] => pure []
  | e :: rest => do
    let x ← e.eval call env
    let values ← Expr.evalAll call env rest
    return x :: values

end

namespace Program

/-- The definition of a name. -/
def definition? (items : List Item) (name : String) : Option Definition :=
  items.findSome? fun
    | .definition d => if d.signature.name = name then some d else none
    | _ => none

/-- The declaration of a name. -/
def declaration? (items : List Item) (name : String) : Option Signature :=
  items.findSome? fun
    | .declaration s => if s.name = name then some s else none
    | _ => none

/--
The value of a call with `remaining` more calls that may be open at once, of `limit` in all.
-/
def call (items : List Item) (limit : Nat) :
    (remaining : Nat) → String → List Float → Evaluation Float
  | 0, _, _ => .fault (.depthLimit limit)
  | remaining + 1, name, args =>
    match definition? items name, declaration? items name with
    | some d, _ =>
      if d.signature.arity = args.length then
        d.body.eval (call items limit remaining) (d.signature.params.zip args)
      else .fault (.wrongCount name d.signature.arity args.length)
    | none, some s =>
      if s.arity = args.length then .host ⟨name, args⟩
      else .fault (.wrongCount name s.arity args.length)
    | none, none => .fault (.unknownName name)

end Program

end ScalarSsa
