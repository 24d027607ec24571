import ScalarSsa.Report.Journal
import ScalarSsa.Text.Control

/-!
# What is shown on the console

**Input.** The events of a run.

**Results.** `Journal.console` gives the bytes that are written beside the program's
results: reports, the output of host calls, and notes up to the detail that was asked for.
-/

namespace ScalarSsa

/-- The word for a severity on the console. -/
def Severity.label : Severity → String
  | .info => "info"
  | .warning => "warning"
  | .error => "error"
  | .critical => "critical"

/-- A report on the console. -/
def Report.console (r : Report) : String :=
  r.severity.label ++ "[" ++ r.issuer ++ "]: " ++ r.message ++ "\n"

/-- A note on the console as plain text; its further lines are indented. -/
def Note.console (n : Note) : String :=
  let name := String.ofList (n.detail.name.toList.rightpad 5 ' ')
  Text.plain
    ("[" ++ name ++ " " ++ n.topic.name ++ "] " ++
      "\n    ".intercalate (n.text.splitOn "\n") ++ "\n")

/-- The bytes of an event on the console. -/
def Event.console (limit : Detail) : Event → List UInt8
  | .note n => if limit.within n.detail then n.console.toUTF8.toList else []
  | .report r => r.console.toUTF8.toList
  | .host call => call.output

/-- The bytes of a journal on the console, the oldest first. -/
def Journal.console (limit : Detail) (j : Journal) : List UInt8 :=
  j.reverse.flatMap (Event.console limit)

end ScalarSsa
