import ScalarSsa.Json.Shape

/-!
# Settings

**Results.** `Settings` say how definitions are treated and how long a run may take.
`Settings.ofJson` reads them from a document in which every field may be left out.
-/

namespace ScalarSsa

/-- How definitions are treated and how long a run may take. -/
structure Settings where
  /-- Run the pipeline over each lowered function. -/
  optimize : Bool := true
  /-- Check each function before and after the pipeline. -/
  verify : Bool := true
  /-- The number of activations that may be open at once. -/
  maxCallDepth : Nat := 1024
  /-- The number of instructions that a run may execute. -/
  maxSteps : Nat := 10000000
  deriving DecidableEq, Repr, Inhabited

namespace Settings

/-- The settings of the fields that are given. -/
def ofFields : List (Option Json) → Except Json.Mismatch Settings
  | [optimize, verify, depth, steps] => do
    let settings : Settings := {}
    let optimize ← (optimize.mapM Json.asBool : Except Json.Mismatch (Option Bool))
    let verify ← (verify.mapM Json.asBool : Except Json.Mismatch (Option Bool))
    let depth ← (depth.mapM Json.asCount : Except Json.Mismatch (Option Nat))
    let steps ← (steps.mapM Json.asCount : Except Json.Mismatch (Option Nat))
    return ⟨optimize.getD settings.optimize, verify.getD settings.verify,
      depth.getD settings.maxCallDepth,
      steps.getD settings.maxSteps⟩
  | _ => .error (.expected "settings")

/-- Settings from a document; missing fields keep their defaults. -/
def ofJson (j : Json) : Except Json.Mismatch Settings := do
  ofFields (← Json.fields ["optimize", "verify", "max_call_depth", "max_steps"] j)

/-- The document of settings. -/
def toJson (s : Settings) : Json :=
  .object [("optimize", .bool s.optimize), ("verify", .bool s.verify),
    ("max_call_depth", .count s.maxCallDepth),
    ("max_steps", .count s.maxSteps)]

/-- The text of settings in notes. -/
def text (s : Settings) : String :=
  "CodegenOptions \x7b optimize: " ++ toString s.optimize ++ ", verify: " ++
    toString s.verify ++
    ", max_call_depth: " ++ toString s.maxCallDepth ++ ", max_steps: " ++
      toString s.maxSteps ++ " \x7d"

end Settings

end ScalarSsa
