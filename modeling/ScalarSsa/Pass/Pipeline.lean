import ScalarSsa.Pass.Folding
import ScalarSsa.Pass.Branches
import ScalarSsa.Pass.Unused
import ScalarSsa.Text.Quoted

/-!
# Pipelines

**Results.** A `Pipeline` is a list of passes that run one after the other.  The standard
one folds constants, simplifies control flow, folds again over the merged blocks and removes
what is unused.
-/

namespace ScalarSsa

/-- Passes in the order in which they run. -/
abbrev Pipeline := List Pass

namespace Pipeline

/-- The pipeline that runs unless another one is asked for. -/
def standard : Pipeline :=
  [.folding, .branches, .folding, .unused]

/-- The note about a pass that has run. -/
def ran (pass : Pass) (f : Function) (changed : Bool) : Note :=
  ⟨.debug, .pipeline, "pass '" ++ pass.name ++ "' on '" ++ f.name ++ "': changed=" ++
    toString changed⟩

/-- Runs one pass after others. -/
def runPass (before : PassResult) (pass : Pass) : PassResult :=
  let after := pass.run before.function
  ⟨after.function, before.changed || after.changed,
    ran pass after.function after.changed :: (after.notes ++ before.notes)⟩

/-- Runs all passes. -/
def run (passes : Pipeline) (f : Function) : PassResult :=
  passes.foldl runPass ⟨f, false, []⟩

/-- The text of a pipeline. -/
def text (passes : Pipeline) : String :=
  "PassManager \x7b passes: " ++ Text.quotedList (passes.map (·.name)) ++ " \x7d"

end Pipeline

end ScalarSsa
