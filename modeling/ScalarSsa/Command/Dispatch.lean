import ScalarSsa.Command.Arguments
import ScalarSsa.Command.Console
import ScalarSsa.Command.Stats
import ScalarSsa.Json.Writer
import ScalarSsa.Session
import ScalarSsa.Source
import ScalarSsa.Ssa.Encoding

/-!
# Carrying out commands

**Input.** An invocation and the surroundings in which it is carried out: files, and two
streams to write to.

**Algorithm.** Settings are loaded first.  A report that ends a command is written last, and
the command fails.

**Results.** `Command.execute` carries out a command up to its end, or up to the lines that
a `Repl` reads.  All that it does to its surroundings goes through the operations that it is
given, so it can be carried out in any monad.
-/

namespace ScalarSsa
namespace Command

/-- The operations through which a command acts. -/
structure Surroundings (m : Type → Type) where
  load : String → m (Except FileFault ByteArray)
  save : String → String → m (Except FileFault Unit)
  /-- Writes results. -/
  out : String → m Unit
  /-- Writes what is shown beside the results. -/
  err : List UInt8 → m Unit

/-- A part of a command; a report ends the command. -/
abbrev Action (m : Type → Type) := ExceptT Report m

/-- A session that handles one line after the other. -/
structure Repl where
  session : Session
  limit : Detail
  deriving Inhabited

/-- How a command ends. -/
inductive Ending where
  | exit (code : UInt8)
  /-- The command goes on with the lines that are read. -/
  | interactive (r : Repl)
  deriving Inhabited

/-- The report that ends a command with a message. -/
def failure (message : String) : Report :=
  ⟨.error, "kaleido.cli", message⟩

/-- The detail of the notes that are shown. -/
def detailOf : (verbosity : Nat) → Detail
  | 0 => .warn
  | 1 => .info
  | 2 => .debug
  | _ => .trace

/-- The text that is shown for an outcome. -/
def outcomeText : Outcome → String
  | .evaluated x => Number.Layout.plain.write x ++ "\n"
  | .discarded text => text
  | o => o.text ++ "\n"

/-- The session with an empty journal. -/
def emptied (s : Session) : Session :=
  { s with context := s.context.mapBuilder fun b => { b with journal := [] } }

/-- The session in which host functions are declared. -/
def withHost (settings : Settings) : Session :=
  .fresh settings .standard true true

section Actions

variable {m : Type → Type} [Monad m]

/-- Shows the events of a session and forgets them. -/
def flush (env : Surroundings m) (limit : Detail) (s : Session) : m Session := do
  env.err (s.context.builder.journal.console limit)
  return emptied s

/-- The settings that an invocation asks for. -/
def loadSettings (env : Surroundings m) (limit : Detail) (path : Option String) :
    Action m Settings := do
  match path with
  | none => return {}
  | some path =>
    match Source.settingsOfFile path (← env.load path) with
    | .ok settings =>
      env.err ((Source.loadedSettings path settings).console limit)
      return settings
    | .error e => throw e.report

/-- The items of a file. -/
def loadItems (env : Surroundings m) (path : String) : Action m (List Item) := do
  match Source.itemsOfFile path (← env.load path) with
  | .ok items => return items
  | .error e => throw e.report

/-- Writes a module to a file or as the result. -/
def writeModule (env : Surroundings m) (output : Option String) (text : String) :
    Action m Unit := do
  match output with
  | none => env.out text
  | some path =>
    match ← env.save path text with
    | .ok () => env.out ("wrote " ++ path ++ "\n")
    | .error fault =>
      throw (failure ("cannot write " ++ Text.quoted path ++ ": " ++ fault.message))

/-- Lowers the items of a file and writes the module. -/
def build (env : Surroundings m) (limit : Detail) (settings : Settings) (t : BuildTask) :
    Action m Unit := do
  let settings := { settings with
    optimize := settings.optimize && !t.noOpt
    verify := settings.verify && !t.noVerify }
  let items ← loadItems env t.file
  let (results, session) :=
    (Session.handleAll items).run (.initial settings .standard false)
  let session ← (flush env limit session : m Session)
  let module := session.module
  let text := match t.format with
    | .json => module.toJson.pretty
    | .text => module.text
  writeModule env t.output text
  if t.stats then
    match t.format with
    | .json => env.out ((statsToJson module.stats).pretty ++ "\n")
    | .text => env.out ("functions\n" ++ statsTable module.stats ++ "\n")
  let failures := (results.filter fun result => !result.isOk).length
  if 0 < failures then throw (failure (toString failures ++ " item(s) failed to lower"))

/-- Handles items one after the other, showing values; returns how many failed. -/
def runItems (env : Surroundings m) (limit : Detail) (session : Session) (failures : Nat) :
    List Item → m Nat
  | [] => return failures
  | item :: rest => do
    let (result, session) := (Session.handle item).run session
    let session ← flush env limit session
    match result with
    | .ok (.evaluated x) =>
      env.out (outcomeText (.evaluated x))
      runItems env limit session failures rest
    | .ok o =>
      env.err ((Event.note ⟨.info, .command, o.text⟩).console limit)
      runItems env limit session failures rest
    | .error _ => runItems env limit session (failures + 1) rest

/-- Lowers the items of a file and runs its expressions. -/
def run (env : Surroundings m) (limit : Detail) (settings : Settings) (file : String)
    (noOpt : Bool) :
    Action m Unit := do
  let settings := { settings with optimize := settings.optimize && !noOpt }
  let items ← loadItems env file
  let session ← (flush env limit (withHost settings) : m Session)
  let failures ← (runItems env limit session 0 items : m Nat)
  if 0 < failures then throw (failure (toString failures ++ " item(s) failed"))

/-- Carries out an invocation, as far as it needs no lines. -/
def perform (env : Surroundings m) (inv : Invocation) : Action m Ending := do
  let limit := detailOf inv.verbosity
  let settings ← loadSettings env limit inv.config
  match inv.task with
  | .build t =>
    build env limit settings t
    return .exit 0
  | .run file noOpt =>
    run env limit settings file noOpt
    return .exit 0
  | .repl =>
    let session ← (flush env limit (withHost settings) : m Session)
    return .interactive ⟨session, limit⟩
  | .nothing => throw (failure "no valid subcommand was used, see --help")

/-- Carries out an invocation, writing the report that ends it. -/
def execute (env : Surroundings m) (inv : Invocation) : m Ending := do
  match ← (perform env inv).run with
  | .ok ending => return ending
  | .error r =>
    env.err r.console.toUTF8.toList
    return .exit 1

end Actions

/-- What handling a line leads to. -/
structure LineResult where
  repl : Repl
  out : String
  err : List UInt8
  /-- Whether the lines can go on. -/
  goesOn : Bool
  deriving Inhabited

/-- A line without its end: a line feed, or a carriage return and a line feed. -/
def chomp (line : String) : String :=
  match line.toList.reverse with
  | '\n' :: '\r' :: rest => String.ofList rest.reverse
  | '\n' :: rest => String.ofList rest.reverse
  | _ => line

/-- The text of a line without its end. -/
def lineText (bytes : ByteArray) : Except FileFault String :=
  (Source.textOf (.ok bytes)).map chomp

/-- Handles a line that was read, without its end. -/
def Repl.feed (r : Repl) (line : Except FileFault String) : LineResult :=
  match line with
  | .error fault =>
    ⟨r, "", (failure ("cannot read stdin: " ++ fault.message)).console.toUTF8.toList, false⟩
  | .ok line =>
    if Text.isBlank line.toList then ⟨r, "", [], true⟩
    else
      match Source.item line with
      | .error cause =>
        ⟨r, "", (LoadError.report ⟨none, cause⟩).console.toUTF8.toList, true⟩
      | .ok item =>
        let (result, session) := (Session.handle item).run r.session
        let out := match result with
          | .ok o => outcomeText o
          | .error _ => ""
        ⟨{ r with session := emptied session }, out,
          session.context.builder.journal.console r.limit, true⟩

/-- The text of the program's version. -/
def versionText : String :=
  "kaleido 0.1.0\n"

/-- The text that shows how the program is called. -/
def helpText : String :=
  "Lower Kaleidoscope ASTs to SSA IR and evaluate them\n\n" ++
  "Usage: kaleido [OPTIONS] [COMMAND]\n\n" ++
  "Commands:\n" ++
  "  build  Lower a JSON item file and print the module\n" ++
  "  run    Lower a JSON item file and evaluate its top-level expressions\n" ++
  "  repl   Read one JSON item per line from stdin\n"

end Command
end ScalarSsa
