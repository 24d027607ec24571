import ScalarSsa.Lowering.Definition
import ScalarSsa.Machine.Run
import ScalarSsa.Ssa.Text

/-!
# Sessions

**Input.** Items, one after the other.

**Algorithm.** Definitions and declarations are lowered and stay.  An expression becomes the
body of a function without parameters, which is run or only shown and then removed, so that
the next expression can use its name.

**Results.** `Session.handle` gives the outcome of an item or the reason why there is none;
a session goes on after a failure.
-/

namespace ScalarSsa

/-- What became of an item. -/
inductive Outcome where
  | defined (name : String)
  | declared (name : String)
  | evaluated (x : Float)
  /-- An expression was lowered but not run. -/
  | discarded (text : String)
  deriving DecidableEq, Repr, Inhabited

/-- The text of an outcome. -/
def Outcome.text : Outcome → String
  | .defined name => "defined '" ++ name ++ "'"
  | .declared name => "declared extern '" ++ name ++ "'"
  | .evaluated x => "evaluated to " ++ Number.Layout.plain.write x
  | .discarded _ => "lowered top-level expression"

/-- Why an item has no outcome. -/
inductive SessionError where
  | lower (e : LowerError)
  | exec (fault : ExecFault)
  deriving DecidableEq, Repr

namespace SessionError

/-- The report of an error. -/
def report : SessionError → Report
  | .lower e => e.report
  | .exec fault => fault.report

/-- The wording of an error. -/
def message (e : SessionError) : String :=
  e.report.message

/-- The wording of an error together with its kind, if it has one. -/
def display : SessionError → String
  | .lower e => e.display
  | .exec fault => fault.message

end SessionError

/-- A context and whether expressions are run. -/
structure Session where
  context : Context
  evaluate : Bool
  deriving Inhabited

/-- The limits that settings give a run. -/
def Settings.limits (s : Settings) : Machine.Limits :=
  ⟨s.maxCallDepth, s.maxSteps⟩

namespace Session

/-- The session before its first item. -/
def initial (settings : Settings) (passes : Pipeline) (evaluate : Bool) : Session :=
  ⟨.initial settings passes, evaluate⟩

/-- The module that the session has built. -/
def module (s : Session) : Module :=
  s.context.module

/-- Works on the context. -/
def onContext {α : Type} (op : StateM Context α) : StateM Session α :=
  modifyGet fun s =>
    let (a, c) := op.run s.context
    (a, { s with context := c })

/-- The session before its first item, with or without the host functions. -/
def fresh (settings : Settings) (passes : Pipeline) (host evaluate : Bool) : Session :=
  if host then ((onContext Lowering.declareHost).run (.initial settings passes evaluate)).2
  else .initial settings passes evaluate

/-- The name of the function that an expression becomes. -/
def anonymous : String :=
  "__anon_expr"

/-- The function that an expression becomes. -/
def asDefinition (e : Expr) : Definition :=
  ⟨⟨anonymous, []⟩, e⟩

/-- Runs a function without arguments. -/
def run (id : FuncId) : StateM Context (Except ExecFault Float) := do
  let c ← get
  let (result, progress) := (Machine.call c.module c.settings.limits id []).run.run ⟨0, []⟩
  modify (Context.mapBuilder fun b =>
    { b with journal := progress.hostCalls.map .host ++ b.journal })
  Lowering.note .debug .session
    ("top-level expression ran " ++ toString progress.steps ++ " steps")
  return result

/-- Runs or shows the function of an expression. -/
def settle (id : FuncId) (evaluate : Bool) : StateM Context (Except ExecFault Outcome) := do
  if evaluate then
    return (← run id).map .evaluated
  else
    let text := (((← get).module.function? id).map Function.text).getD ""
    return .ok (.discarded text)

/-- Handles an expression. -/
def handleExpr (e : Expr) (evaluate : Bool) :
    StateM Context (Except SessionError Outcome) := do
  match ← (Lowering.lowerDefinition (asDefinition e)).run with
  | .error e => return .error (.lower e)
  | .ok id =>
    let outcome ← settle id evaluate
    let _ ← Lowering.onBuilder (Builder.delete? id)
    match outcome with
    | .ok o => return .ok o
    | .error fault =>
      Lowering.record (.report fault.report)
      return .error (.exec fault)

/-- Handles an item. -/
def handleItem (item : Item) (evaluate : Bool) :
    StateM Context (Except SessionError Outcome) := do
  match item with
  | .definition d =>
    match ← (Lowering.lowerDefinition d).run with
    | .ok _ => return .ok (.defined d.signature.name)
    | .error e => return .error (.lower e)
  | .declaration s =>
    match ← (Lowering.lowerSignature s).run with
    | .ok _ => return .ok (.declared s.name)
    | .error e => return .error (.lower e)
  | .expression e => handleExpr e evaluate

/-- Handles an item in a session. -/
def handle (item : Item) : StateM Session (Except SessionError Outcome) := do
  onContext (handleItem item (← get).evaluate)

/-- Handles an item as one of several, taking a note of a failure. -/
def handleNoting (item : Item) : StateM Session (Except SessionError Outcome) := do
  let result ← handle item
  if let .error e := result then
    onContext (Lowering.note .debug .session ("item failed: " ++ e.message))
  return result

/-- Handles every item, going on after failures. -/
def handleAll : List Item → StateM Session (List (Except SessionError Outcome))
  | [] => return []
  | item :: rest => do
    let result ← handleNoting item
    let results ← handleAll rest
    return result :: results

/-- Handles items up to the first failure. -/
def handleUntilFailure : List Item → StateM Session (Option SessionError)
  | [] => return none
  | item :: rest => do
    match ← handle item with
    | .error e => return some e
    | .ok _ => handleUntilFailure rest

end Session

/-- The module of items, none of which is run; the first failure ends it. -/
def lowerItems (items : List Item) (settings : Settings) : Except SessionError Module :=
  match (Session.handleUntilFailure items).run (.initial settings .standard false) with
  | (some e, _) => .error e
  | (none, s) => .ok s.module

end ScalarSsa
