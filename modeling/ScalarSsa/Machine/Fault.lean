import ScalarSsa.Ssa.Basic
import ScalarSsa.Machine.Host
import ScalarSsa.Report.Basic

/-!
# Why a run ends early

**Results.** An `ExecFault` is the reason why a call has no value: a limit was reached, the
host has no value for a call, or the function breaks a rule.
-/

namespace ScalarSsa

/-- Why a call has no value. -/
inductive ExecFault where
  | depthLimit (limit : Nat)
  | stepLimit (limit : Nat)
  | host (fault : HostFault)
  | unknownName (name : String)
  | missingFunction (id : FuncId)
  | wrongCount (name : String) (expected given : Nat)
  | missingBlock (name : String) (block : BlockId)
  | phiAtEntry
  | missingEdge (phi : ValueId) (pred : BlockId)
  | latePhi (phi : ValueId)
  | missingArgument (position : Nat)
  | notComputed (id : ValueId)
  | notDouble (operand : Operand)
  | notBool (operand : Operand)
  | noTerminator (block : BlockId) (name : String)
  deriving DecidableEq, Repr

namespace ExecFault

/-- The wording of a fault. -/
def message : ExecFault → String
  | .depthLimit limit => "call depth limit of " ++ toString limit ++ " exceeded"
  | .stepLimit limit => "step limit of " ++ toString limit ++ " exceeded"
  | .host fault => fault.message
  | .unknownName name => "unknown function '" ++ name ++ "'"
  | .missingFunction id => "call to missing function " ++ id.text
  | .wrongCount name expected given =>
    "'" ++ name ++ "' expects " ++ toString expected ++ " arguments, got " ++ toString given
  | .missingBlock name block => "'" ++ name ++ "' jumps to missing block " ++ block.text
  | .phiAtEntry => "phi reached without a predecessor"
  | .missingEdge phi pred => "phi " ++ phi.text ++ " has no entry for " ++ pred.text
  | .latePhi phi => "phi " ++ phi.text ++ " after non-phi instructions"
  | .missingArgument position => "argument " ++ toString position ++ " out of range"
  | .notComputed id => "value " ++ id.text ++ " read before it was computed"
  | .notDouble operand => "expected a double for " ++ operand.text
  | .notBool operand => "expected a boolean for " ++ operand.text
  | .noTerminator block name =>
    "block " ++ block.text ++ " of '" ++ name ++ "' has no terminator"

/-- The report of a run that ended with a message. -/
def reportOf (message : String) : Report :=
  ⟨.error, "kaleido.exec", message⟩

/-- The report of a fault. -/
def report (fault : ExecFault) : Report :=
  reportOf fault.message

end ExecFault

end ScalarSsa
