import ScalarSsa.Report.Basic
import ScalarSsa.Machine.Host

/-!
# The journal of a run

**Input.** What the parts of the program do: they take notes, report to the user
and call the host.

**Algorithm.** Events are put in front, so that a journal holds the newest event first.

**Results.** A journal is plain data.  What reaches the user is read off it at the end:
`Journal.reports`, `Journal.hostCalls`, and `Journal.notes`, where the sink decides how a
report is noted.
-/

namespace ScalarSsa

/-- How much detail a note gives. -/
inductive Detail where
  | error
  | warn
  | info
  | debug
  | trace
  deriving DecidableEq, Repr, Inhabited

namespace Detail

/-- The name of a detail. -/
def name : Detail → String
  | .error => "ERROR"
  | .warn => "WARN"
  | .info => "INFO"
  | .debug => "DEBUG"
  | .trace => "TRACE"

/-- The place in the order from the fewest notes to the most. -/
def rank : Detail → Nat
  | .error => 1
  | .warn => 2
  | .info => 3
  | .debug => 4
  | .trace => 5

/-- A note of detail `d` is kept where notes up to `limit` are asked for. -/
def within (limit d : Detail) : Bool :=
  d.rank ≤ limit.rank

end Detail

/-- The part of the program that takes a note. -/
inductive Topic where
  | table
  | builder
  | expression
  | definition
  | hostDeclaration
  | pipeline
  | unused
  | session
  | settings
  | reports
  | command
  deriving DecidableEq, Repr, Inhabited

/-- The name under which a part's notes are written. -/
def Topic.name : Topic → String
  | .table => "kaleido_core::ir::module"
  | .builder => "kaleido_core::ir::builder"
  | .expression => "kaleido_core::ir::lower::lower_expr"
  | .definition => "kaleido_core::ir::lower::lower_function"
  | .hostDeclaration => "kaleido_core::ir::lower::declare_builtins"
  | .pipeline => "kaleido_core::ir::opt"
  | .unused => "kaleido_core::ir::opt::dce"
  | .session => "kaleido_core::session"
  | .settings => "kaleido_core::config"
  | .reports => "kaleido_core::diagnostics"
  | .command => "kaleido"

/-- A remark about the program's work. -/
structure Note where
  detail : Detail
  topic : Topic
  text : String
  deriving DecidableEq, Repr, Inhabited

/-- A note on one line. -/
def Note.line (n : Note) : String :=
  n.detail.name ++ " " ++ n.topic.name ++ ": " ++ n.text

/-- Something that happened. -/
inductive Event where
  | note (n : Note)
  | report (r : Report)
  | host (call : HostCall)
  deriving DecidableEq, Repr, Inhabited

/-- The events so far, the newest first. -/
abbrev Journal := List Event

/-- Where reports go: they are noted, kept in memory, or shown on the console. -/
inductive Sink where
  | log
  | memory
  | console
  deriving DecidableEq, Repr, Inhabited

/-- The detail of the note that a logged report becomes. -/
def Severity.detail : Severity → Detail
  | .info => .info
  | .warning => .warn
  | .error => .error
  | .critical => .error

/-- The notes that a sink takes of a report. -/
def Sink.notes (sink : Sink) (r : Report) : List Note :=
  match sink with
  | .log => [⟨r.severity.detail, .reports, "[" ++ r.issuer ++ "] " ++ r.message⟩]
  | .memory =>
    [⟨.debug, .reports, "[" ++ r.issuer ++ "] buffered diagnostic: " ++ r.message⟩]
  | .console => []

/-- The notes of an event. -/
def Event.notes (sink : Sink) : Event → List Note
  | .note n => [n]
  | .report r => sink.notes r
  | .host _ => []

/-- The report of an event. -/
def Event.report? : Event → Option Report
  | .report r => some r
  | _ => none

/-- The host call of an event. -/
def Event.hostCall? : Event → Option HostCall
  | .host call => some call
  | _ => none

namespace Journal

/-- The notes of a journal, the oldest first. -/
def notes (sink : Sink) (j : Journal) : List Note :=
  j.reverse.flatMap (Event.notes sink)

/-- The reports of a journal, the oldest first. -/
def reports (j : Journal) : List Report :=
  j.reverse.filterMap Event.report?

/-- The host calls of a journal, the oldest first. -/
def hostCalls (j : Journal) : List HostCall :=
  j.reverse.filterMap Event.hostCall?

/-- The bytes that host calls wrote, in order. -/
def output (j : Journal) : List UInt8 :=
  j.hostCalls.flatMap HostCall.output

end Journal

end ScalarSsa
