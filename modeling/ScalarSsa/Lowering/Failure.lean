import ScalarSsa.Ssa.Builder
import ScalarSsa.Verify.Problem

/-!
# Why lowering fails

**Results.** A `LowerError` is the cause of a failure.  Its kind decides how serious it
is; the state of the builder and the checker's verdict are critical, since no input
should lead to them.
-/

namespace ScalarSsa

/-- The kinds of failure. -/
inductive LowerError.Kind where
  | unknownVariable
  | unknownOperator
  | unknownFunction
  | arityMismatch
  | redefinition
  | arityConflict
  | duplicateParameter
  | invalidInsertPoint
  | verification
  deriving DecidableEq, Repr, Inhabited

namespace LowerError.Kind

/-- All kinds of failure. -/
def all : List Kind :=
  [.unknownVariable, .unknownOperator, .unknownFunction, .arityMismatch,
    .redefinition, .arityConflict,
    .duplicateParameter, .invalidInsertPoint, .verification]

/-- The name of a kind. -/
def name : Kind → String
  | .unknownVariable => "unknown-variable"
  | .unknownOperator => "unknown-operator"
  | .unknownFunction => "unknown-function"
  | .arityMismatch => "arity-mismatch"
  | .redefinition => "redefinition"
  | .arityConflict => "arity-conflict"
  | .duplicateParameter => "duplicate-parameter"
  | .invalidInsertPoint => "invalid-insert-point"
  | .verification => "verification"

/-- How serious a failure of a kind is. -/
def severity : Kind → Severity
  | .invalidInsertPoint => .critical
  | .verification => .critical
  | _ => .error

/-- The report of a failure of a kind. -/
def report (kind : Kind) (message : String) : Report :=
  ⟨kind.severity, "kaleido.lower", message⟩

/-- A message together with its kind. -/
def display (kind : Kind) (message : String) : String :=
  message ++ " [" ++ kind.name ++ "]"

end LowerError.Kind

/-- The cause of a failure. -/
inductive LowerError where
  | unknownVariable (name : String)
  | unknownOperator (op : Char)
  | unknownFunction (name : String)
  | arityMismatch (callee : String) (expected given : Nat)
  | redefinition (name : String)
  | arityConflict (name : String) (declared given : Nat)
  | duplicateParameter (param function : String)
  | insertPoint (e : InsertError)
  | malformed (m : Malformed)
  | vanished (id : FuncId)
  deriving DecidableEq, Repr, Inhabited

namespace LowerError

/-- The kind of a failure. -/
def kind : LowerError → Kind
  | .unknownVariable _ => .unknownVariable
  | .unknownOperator _ => .unknownOperator
  | .unknownFunction _ => .unknownFunction
  | .arityMismatch .. => .arityMismatch
  | .redefinition _ => .redefinition
  | .arityConflict .. => .arityConflict
  | .duplicateParameter .. => .duplicateParameter
  | .insertPoint _ => .invalidInsertPoint
  | .malformed _ => .verification
  | .vanished _ => .verification

/-- The wording of a failure. -/
def message : LowerError → String
  | .unknownVariable name => "Unknown variable name '" ++ name ++ "'"
  | .unknownOperator op => "invalid binary operator '" ++ op.toString ++ "'"
  | .unknownFunction name => "Unknown function referenced '" ++ name ++ "'"
  | .arityMismatch callee expected given =>
    "Incorrect # arguments passed to '" ++ callee ++ "': expected " ++ toString expected ++
      ", got " ++ toString given
  | .redefinition name => "redefinition of function '" ++ name ++ "'"
  | .arityConflict name declared given =>
    "redefinition of function '" ++ name ++ "' with different # args (" ++
      toString declared ++ " vs " ++
      toString given ++ ")"
  | .duplicateParameter param function =>
    "duplicate parameter '" ++ param ++ "' in prototype '" ++ function ++ "'"
  | .insertPoint e => e.message
  | .malformed m => m.message
  | .vanished id => "function " ++ id.text ++ " vanished during lowering"

/-- The report of a failure. -/
def report (e : LowerError) : Report :=
  e.kind.report e.message

/-- A failure together with its kind. -/
def display (e : LowerError) : String :=
  e.kind.display e.message

end LowerError

end ScalarSsa
