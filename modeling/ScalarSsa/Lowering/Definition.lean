import ScalarSsa.Lowering.Expression
import ScalarSsa.Verify.Check

/-!
# Lowering signatures and definitions

**Input.** A signature or a definition.

**Algorithm.** A signature is declared, or a declaration of the same arity is taken over.  A
definition is lowered in an empty scope: its body goes into a new block, its value is
returned, and the function is checked and run through the pipeline.  If any of this fails
the function is removed again, or is the declaration that it was before.

**Results.** `lowerSignature` and `lowerDefinition` give the function's identifier.
`declareHost` declares the host functions whose names are free.
-/

namespace ScalarSsa
namespace Lowering

/-- The first parameter that has the name of one before it. -/
def repeatedParam? (seen : List String) : List String → Option String
  | [] => none
  | param :: rest =>
    if seen.contains param then some param else repeatedParam? (param :: seen) rest

/-- The function of a name and whether it has a body, with its arity. -/
def existing? (m : Module) (name : String) : Option (FuncId × Bool × Nat) :=
  (m.find? name).map fun id =>
    match m.function? id with
    | some f => (id, f.hasBody, f.arity)
    | none => (id, false, 0)

/--
Why a signature cannot be declared: the name has a body, a parameter is repeated, or the
arity is another.
-/
def signatureError? (m : Module) (s : Signature) : Option LowerError :=
  match existing? m s.name, repeatedParam? [] s.params with
  | some (_, true, _), _ => some (.redefinition s.name)
  | _, some param => some (.duplicateParameter param s.name)
  | some (_, false, arity), none =>
    if arity = s.arity then none else some (.arityConflict s.name arity s.arity)
  | none, none => none

/--
Takes over a declaration, giving it new names for its parameters; returns the
names that it had.
-/
def takeOver (id : FuncId) (params : List String) : StateM Context (List String) :=
  modifyGet fun c =>
    (((c.module.function? id).map (·.params)).getD [],
      c.mapBuilder (Builder.mapFunction id fun f => { f with params := params }))

/-- Takes over the declaration of a signature's name, or declares it. -/
def install (s : Signature) : StateM Context (FuncId × Option (List String)) := do
  match existing? (← get).module s.name with
  | some (id, _, _) => return (id, some (← takeOver id s.params))
  | none => return (← declare s.name s.params, none)

/--
Declares a signature and binds its parameters.  Returns the function and, if it was declared
before, the names that its parameters had.
-/
def declareSignature (s : Signature) : Lowering (FuncId × Option (List String)) := do
  match signatureError? (← get).module s with
  | some e => fail e
  | none =>
    let declared ← install s
    mapScope fun scope => scope.bindParams 0 s.params
    return declared

/-- Declares a signature. -/
def lowerSignature (s : Signature) : Lowering FuncId := do
  return (← declareSignature s).1

/-- A function that has to exist and to break no rule. -/
def check (id : FuncId) : Lowering Unit := do
  let m := (← get).module
  match m.function? id with
  | none => fail (.vanished id)
  | some f =>
    match m.verify f with
    | .ok () => return ()
    | .error e => fail (.malformed e)

/-- Runs the pipeline over a function. -/
def optimize (id : FuncId) : StateM Context Unit :=
  modify fun c =>
    match c.module.function? id with
    | none => c
    | some f =>
      let after := Pipeline.run c.passes f
      c.mapBuilder fun b =>
        { b.mapFunction id fun _ => after.function with
          journal := after.journal ++ b.journal }

/-- Lowers a body into a function that has none. -/
def lowerBody (id : FuncId) (body : Expr) : Lowering Unit := do
  let entry ← build (Builder.appendBlock id "entry")
  moveTo id entry
  let result ← lowerExpr body
  build (Builder.ret result.operand)
  let settings := (← get).settings
  if settings.verify then check id
  if settings.optimize then
    optimize id
    if settings.verify then check id

/-- Undoes a definition that failed. -/
def discard (id : FuncId) (previous : Option (List String)) : StateM Context Unit := do
  onBuilder Builder.clearCursor
  mapScope fun _ => []
  match previous with
  | some params =>
    modify (Context.mapBuilder (Builder.mapFunction id fun f =>
      { f.clearBody with params := params }))
  | none => let _ ← onBuilder (Builder.delete? id)

/-- Ends a definition that succeeded. -/
def finish (id : FuncId) (name : String) : StateM Context Unit := do
  onBuilder Builder.clearCursor
  let count := (((← get).module.function? id).map Function.instrCount).getD 0
  note .debug .definition
    ("lowered function '" ++ name ++ "' (" ++ toString count ++ " instructions)")

/-- Lowers a definition. -/
def lowerDefinition (d : Definition) : Lowering FuncId := do
  mapScope fun _ => []
  let (id, previous) ← declareSignature d.signature
  tryCatch (lowerBody id d.body) fun e => do
    discard id previous
    throw e
  finish id d.signature.name
  return id

/--
Declares some host functions, leaving alone the names that are taken; returns
the names declared.
-/
def declareHostFunctions : List HostFunction → StateM Context (List String)
  | [] => return []
  | h :: rest => do
    let params := (List.range h.arity).map fun i => "x" ++ toString i
    match ← onBuilder (Builder.declare? h.name params) with
    | some _ => return h.name :: (← declareHostFunctions rest)
    | none => declareHostFunctions rest

/-- Declares the host functions whose names are free; returns the names declared. -/
def declareHost : StateM Context (List String) := do
  let declared ← declareHostFunctions HostFunction.all
  note .debug .hostDeclaration ("declared host functions: " ++ Text.quotedList declared)
  return declared

end Lowering
end ScalarSsa
