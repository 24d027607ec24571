/-!
# Reports

**Results.** A `Report` is one message to the user: how serious it is, which part of the
program issues it, and what it says.
-/

namespace ScalarSsa

/-- How serious a report is. -/
inductive Severity where
  | info
  | warning
  | error
  | critical
  deriving DecidableEq, Repr, Inhabited

/-- The name of a severity. -/
def Severity.name : Severity → String
  | .info => "INFO"
  | .warning => "WARNING"
  | .error => "ERROR"
  | .critical => "CRITICAL"

/-- One message to the user. -/
structure Report where
  severity : Severity
  issuer : String
  message : String
  deriving DecidableEq, Repr, Inhabited

/-- A report on one line. -/
def Report.line (r : Report) : String :=
  r.severity.name ++ " | " ++ r.issuer ++ " | " ++ r.message

/-- A report on one line that names the program. -/
def Report.text (r : Report) : String :=
  "KALEIDO | " ++ r.line

end ScalarSsa
