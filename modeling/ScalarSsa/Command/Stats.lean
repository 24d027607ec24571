import ScalarSsa.Json.Basic
import ScalarSsa.Ssa.Module
import ScalarSsa.Text.Table

/-!
# Statistics of a module

**Results.** `Module.stats` counts what each function holds; `statsTable` and
`statsToJson` show it.
-/

namespace ScalarSsa

/-- What a function holds. -/
structure FunctionStats where
  name : String
  params : Nat
  blocks : Nat
  instructions : Nat
  defined : Bool
  deriving DecidableEq, Repr, Inhabited

/-- What a function holds. -/
def Function.stats (f : Function) : FunctionStats :=
  ⟨f.name, f.arity, f.blocks.length, f.instrCount, f.hasBody⟩

/-- What each function of a module holds, in order. -/
def Module.stats (m : Module) : List FunctionStats :=
  m.functions.map Function.stats

namespace FunctionStats

/-- The document of a function's statistics. -/
def toJson (s : FunctionStats) : Json :=
  .object [("name", .string s.name), ("params", .count s.params),
    ("blocks", .count s.blocks),
    ("instructions", .count s.instructions), ("defined", .bool s.defined)]

/-- The row of a function's statistics. -/
def row (s : FunctionStats) : Text.Row :=
  [s.name, toString s.params, toString s.blocks, toString s.instructions,
    if s.defined then "define" else "declare"]

end FunctionStats

/-- The document of a module's statistics. -/
def statsToJson (stats : List FunctionStats) : Json :=
  .array (stats.map FunctionStats.toJson)

/-- The table of a module's statistics. -/
def statsTable (stats : List FunctionStats) : String :=
  Text.table ["function", "params", "blocks", "instructions", "kind"]
    (stats.map FunctionStats.row)

end ScalarSsa
