import ScalarSsa.Ssa.Function

/-!
# Modules

**Results.** A `Module` is the table of all functions in the order of their declaration,
with the names by which they are found.  Declarations last: later functions call earlier
ones, or ones that get their body later.
-/

namespace ScalarSsa

/-- A table of functions. -/
structure Module where
  functions : List Function
  /-- The names that are taken. -/
  names : List (String × FuncId)
  /-- The number of functions declared so far. -/
  nextId : Nat
  deriving DecidableEq, Repr, Inhabited

namespace Module

/-- The module without functions. -/
def empty : Module :=
  ⟨[], [], 0⟩

/-- The function that bears a name. -/
def find? (m : Module) (name : String) : Option FuncId :=
  m.names.lookup name

/-- The function of an identifier. -/
def function? (m : Module) (id : FuncId) : Option Function :=
  m.functions.find? fun f => f.id == id

/-- The function that bears a name. -/
def functionNamed? (m : Module) (name : String) : Option Function :=
  (m.find? name).bind m.function?

/-- The identifier that the next function gets. -/
def freshId (m : Module) : FuncId :=
  .ofCount m.nextId

/-- The module with one more declaration at its end. -/
def declare (m : Module) (name : String) (params : List String) : Module :=
  ⟨m.functions ++ [.declaration m.freshId name params],
    m.names ++ [(name, m.freshId)], m.nextId + 1⟩

/-- The functions with the first one of an identifier changed. -/
def changeFirst (id : FuncId) (change : Function → Function) : List Function → List Function
  | [] => []
  | f :: rest => if f.id = id then change f :: rest else f :: changeFirst id change rest

/-- The module with a function changed. -/
def mapFunction (m : Module) (id : FuncId) (change : Function → Function) : Module :=
  { m with functions := changeFirst id change m.functions }

/-- The module without a function; its name is free again. -/
def erase (m : Module) (f : Function) : Module :=
  { m with
    functions := m.functions.eraseP fun g => g.id == f.id
    names := m.names.filter fun entry => entry.1 != f.name }

end Module

end ScalarSsa
