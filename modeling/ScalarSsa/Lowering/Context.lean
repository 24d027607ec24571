import ScalarSsa.Lowering.Failure
import ScalarSsa.Pass.Pipeline
import ScalarSsa.Settings

/-!
# The state of lowering

**Results.** A `Context` holds the module under construction, the operands that names stand
for, the pipeline and the settings.  A `Lowering` works on a context and may fail; what it
did before it failed stays done.  Every failure is reported once, where it is found.
-/

namespace ScalarSsa

/-- The operands that names stand for. -/
abbrev Scope := List (String × Operand)

namespace Scope

/-- The operand that a name stands for. -/
def find? (scope : Scope) (name : String) : Option Operand :=
  scope.lookup name

/-- The scope in which a name stands for an operand. -/
def bind (scope : Scope) (name : String) (operand : Operand) : Scope :=
  (name, operand) :: scope.filter fun entry => entry.1 != name

/--
The scope in which names stand for parameters, from a position on.  Positions are
counted in 32 bits.
-/
def bindParams (scope : Scope) (position : Nat) : List String → Scope
  | [] => scope
  | param :: rest =>
    bindParams (scope.bind param (.arg (position % UInt32.size))) (position + 1) rest

end Scope

/-- The state of lowering. -/
structure Context where
  builder : Builder
  scope : Scope
  passes : Pipeline
  settings : Settings
  deriving Inhabited

namespace Context

/-- The context before anything is lowered. -/
def initial (settings : Settings) (passes : Pipeline) : Context :=
  ⟨.empty, [], passes, settings⟩

/-- The module under construction. -/
def module (c : Context) : Module :=
  c.builder.module

/-- The context with its builder changed. -/
def mapBuilder (change : Builder → Builder) (c : Context) : Context :=
  { c with builder := change c.builder }

end Context

/-- A computation on a context that may fail. -/
abbrev Lowering := ExceptT LowerError (StateM Context)

namespace Lowering

/-- Records an event. -/
def record (e : Event) : StateM Context Unit :=
  modify (Context.mapBuilder (Builder.record e))

/-- Takes a note. -/
def note (detail : Detail) (topic : Topic) (text : String) : StateM Context Unit :=
  record (.note ⟨detail, topic, text⟩)

/-- Reports a failure and fails. -/
def fail {α : Type} (e : LowerError) : Lowering α := do
  record (.report e.report)
  throw e

/-- Works on the builder. -/
def onBuilder {α : Type} (op : StateM Builder α) : StateM Context α :=
  modifyGet fun c =>
    let (a, b) := op.run c.builder
    (a, { c with builder := b })

/-- Moves the cursor to the end of a block. -/
def moveTo (func : FuncId) (block : BlockId) : StateM Context Unit :=
  onBuilder (Builder.moveTo func block)

/-- Declares a function under a name that is free. -/
def declare (name : String) (params : List String) : StateM Context FuncId :=
  onBuilder (Builder.declare name params)

/-- Works on the builder, reporting a failure. -/
def build {α : Type} (op : Build α) : Lowering α := ExceptT.mk do
  match ← onBuilder op.run with
  | .ok a => return .ok a
  | .error e => (fail (.insertPoint e)).run

/-- The cursor, which has to be set. -/
def insertionPoint : Lowering Cursor := do
  match (← get).builder.cursor with
  | some cursor => return cursor
  | none => fail (.insertPoint .noCursor)

/-- Changes the scope. -/
def mapScope (change : Scope → Scope) : StateM Context Unit :=
  modify fun c => { c with scope := change c.scope }

end Lowering

end ScalarSsa
