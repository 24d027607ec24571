import ScalarSsa.Ssa.Function
import ScalarSsa.Report.Journal

/-!
# Passes

**Results.** A `Pass` turns a function into another one, says whether it changed anything
and takes notes of it.  It is given the function and nothing else: it can neither report to
the user nor call the host, and it keeps no state from one function to the next.
-/

namespace ScalarSsa

/-- What a pass makes of a function, with its notes, the newest first. -/
structure PassResult where
  function : Function
  changed : Bool
  notes : List Note
  deriving DecidableEq, Repr, Inhabited

/-- The events of a pass, all of which are notes. -/
def PassResult.journal (result : PassResult) : Journal :=
  result.notes.map .note

/-- A transformation of functions. -/
structure Pass where
  name : String
  run : Function → PassResult
  deriving Inhabited

end ScalarSsa
