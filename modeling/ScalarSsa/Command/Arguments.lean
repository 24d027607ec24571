/-!
# Command lines

**Input.** The arguments of the program.

**Algorithm.** Arguments are read from left to right, and the first one that cannot be
accepted ends the reading.  The arguments before the verb and those after it are read by the
same rules with different switches.

**Results.** `Command.parse` gives an `Invocation`, or the reason to stop
before anything is done.
-/

namespace ScalarSsa
namespace Command

/-- What the program can be asked to do. -/
inductive Verb where
  | build
  | run
  | repl
  deriving DecidableEq, Repr, Inhabited

namespace Verb

/-- All verbs. -/
def all : List Verb :=
  [.build, .run, .repl]

/-- The word for a verb. -/
def word : Verb → String
  | .build => "build"
  | .run => "run"
  | .repl => "repl"

/-- The verb of a word. -/
def named? (word : String) : Option Verb :=
  all.find? fun verb => verb.word == word

/-- The number of files that a verb takes. -/
def fileCount : Verb → Nat
  | .build => 1
  | .run => 1
  | .repl => 0

end Verb

/-- The named arguments. -/
inductive Switch where
  | verbose
  | config
  | emit
  | output
  | noOpt
  | noVerify
  | stats
  | help
  | version
  deriving DecidableEq, Repr, Inhabited

namespace Switch

/-- The name of a switch after two hyphens. -/
def long : Switch → String
  | .verbose => "verbose"
  | .config => "config"
  | .emit => "emit"
  | .output => "output"
  | .noOpt => "no-opt"
  | .noVerify => "no-verify"
  | .stats => "stats"
  | .help => "help"
  | .version => "version"

/-- The letter of a switch after one hyphen. -/
def short? : Switch → Option Char
  | .verbose => some 'v'
  | .output => some 'o'
  | .help => some 'h'
  | .version => some 'V'
  | _ => none

/-- The switch has a value. -/
def takesValue : Switch → Bool
  | .config => true
  | .emit => true
  | .output => true
  | _ => false

/-- A value that the switch can have. -/
def admits : Switch → String → Bool
  | .emit, value => value == "ir" || value == "json"
  | _, value => value != ""

/-- The switches before a verb, or after it. -/
def accepted : Option Verb → List Switch
  | none => [.verbose, .config, .help, .version]
  | some .build => [.verbose, .config, .help, .emit, .output, .noOpt, .noVerify, .stats]
  | some .run => [.verbose, .config, .help, .noOpt]
  | some .repl => [.verbose, .config, .help]

end Switch

/-- Why nothing is done. -/
inductive Stop where
  | usage
  | help
  | version
  deriving DecidableEq, Repr, Inhabited

/-- The arguments read so far. -/
structure Given where
  switches : List (Switch × String)
  files : List String
  deriving DecidableEq, Repr, Inhabited

namespace Given

/-- The value of a switch. -/
def value? (g : Given) (s : Switch) : Option String :=
  g.switches.lookup s

/-- The switch was given. -/
def has (g : Given) (s : Switch) : Bool :=
  (g.value? s).isSome

/-- How often a switch was given. -/
def count (g : Given) (s : Switch) : Nat :=
  (g.switches.filter fun entry => entry.1 == s).length

/-- Takes a switch that stands alone. -/
def flag (g : Given) (s : Switch) : Except Stop Given :=
  match s with
  | .help => .error .help
  | .version => .error .version
  | .verbose => .ok { g with switches := (s, "") :: g.switches }
  | _ => if g.has s then .error .usage else .ok { g with switches := (s, "") :: g.switches }

/-- Takes a switch with its value. -/
def setting (g : Given) (s : Switch) (value : String) : Except Stop Given :=
  if g.has s || !s.admits value then .error .usage
  else .ok { g with switches := (s, value) :: g.switches }

/-- Takes a file, if the verb has room for it. -/
def file (g : Given) (verb : Verb) (name : String) : Except Stop Given :=
  if g.files.length < verb.fileCount && name != "" then
    .ok { g with files := g.files ++ [name] }
  else .error .usage

end Given

/-- A switch that still needs its value, besides what was read. -/
abbrev Pending := Given × Option Switch

/--
The switches of a cluster of letters; what follows a switch with a value is its value.
-/
def letters (verb : Option Verb) (g : Given) : List Char → Except Stop Pending
  | [] => .ok (g, none)
  | c :: rest =>
    match (Switch.accepted verb).find? fun s => s.short? == some c with
    | none => .error .usage
    | some s =>
      if s.takesValue then
        match rest with
        | [] => .ok (g, some s)
        | '=' :: value => (g.setting s (String.ofList value)).map fun g => (g, none)
        | value => (g.setting s (String.ofList value)).map fun g => (g, none)
      else
        match g.flag s with
        | .error stop => .error stop
        | .ok g => letters verb g rest

/-- A switch written in full, with or without its value behind an equals sign. -/
def word (verb : Option Verb) (g : Given) (cs : List Char) : Except Stop Pending :=
  let name := String.ofList (cs.takeWhile (· != '='))
  match (Switch.accepted verb).find? fun s => s.long == name, cs.dropWhile (· != '=') with
  | none, _ => .error .usage
  | some s, [] =>
    if s.takesValue then .ok (g, some s) else (g.flag s).map fun g => (g, none)
  | some s, _ :: value =>
    if s.takesValue then (g.setting s (String.ofList value)).map fun g => (g, none)
    else .error .usage

/-- An argument that can be a value: it does not look like a switch. -/
def isValue (arg : String) : Bool :=
  arg == "-" || !arg.startsWith "-"

/-- Files behind a double hyphen. -/
def remaining (verb : Option Verb) (g : Given) : List String → Except Stop Given
  | [] => .ok g
  | name :: rest =>
    match verb with
    | none => .error .usage
    | some v =>
      match g.file v name with
      | .error stop => .error stop
      | .ok g => remaining verb g rest

/-- One argument that is no value of a switch and no file. -/
def switch (verb : Option Verb) (g : Given) (arg : String) : Except Stop Pending :=
  match arg.toList with
  | '-' :: '-' :: cs => word verb g cs
  | '-' :: cs => letters verb g cs
  | _ => .error .usage

/-- Reads the arguments after a verb. -/
def scan (verb : Verb) : Pending → List String → Except Stop Given
  | (g, none), [] => .ok g
  | (_, some _), [] => .error .usage
  | (g, some s), arg :: rest =>
    if isValue arg then (g.setting s arg).bind fun g => scan verb (g, none) rest
    else .error .usage
  | (g, none), arg :: rest =>
    if arg == "--" then remaining (some verb) g rest
    else if isValue arg then (g.file verb arg).bind fun g => scan verb (g, none) rest
    else (switch (some verb) g arg).bind fun pending => scan verb pending rest

/-- Asks for help about some verbs. -/
def helpAbout : List String → Stop
  | [] => .help
  | [word] => if (Verb.named? word).isSome || word == "help" then .help else .usage
  | _ => .usage

/-- Reads the arguments before a verb; returns the verb and the arguments after it. -/
def scanTop : Pending → List String → Except Stop (Given × Option (Verb × List String))
  | (g, none), [] => .ok (g, none)
  | (_, some _), [] => .error .usage
  | (g, some s), arg :: rest =>
    if isValue arg then (g.setting s arg).bind fun g => scanTop (g, none) rest
    else .error .usage
  | (g, none), arg :: rest =>
    if arg == "--" then (remaining none g rest).map fun g => (g, none)
    else if isValue arg then
      match Verb.named? arg with
      | some verb => .ok (g, some (verb, rest))
      | none => .error (if arg == "help" then helpAbout rest else .usage)
    else (switch none g arg).bind fun pending => scanTop pending rest

/-- How a module is written. -/
inductive Format where
  | text
  | json
  deriving DecidableEq, Repr, Inhabited

/-- How a module is built. -/
structure BuildTask where
  file : String
  format : Format
  output : Option String
  noOpt : Bool
  noVerify : Bool
  stats : Bool
  deriving DecidableEq, Repr, Inhabited

/-- What is to be done. -/
inductive Task where
  | build (t : BuildTask)
  | run (file : String) (noOpt : Bool)
  | repl
  | nothing
  deriving DecidableEq, Repr, Inhabited

/-- A command line that can be carried out. -/
structure Invocation where
  verbosity : Nat
  config : Option String
  task : Task
  deriving DecidableEq, Repr, Inhabited

/-- The task of a verb with its arguments. -/
def taskOf (verb : Verb) (g : Given) : Except Stop Task :=
  match verb, g.files with
  | .build, [file] =>
    .ok (.build ⟨file, if g.value? .emit = some "json" then .json else .text,
      g.value? .output, g.has .noOpt,
      g.has .noVerify, g.has .stats⟩)
  | .run, [file] => .ok (.run file (g.has .noOpt))
  | .repl, [] => .ok .repl
  | _, _ => .error .usage

/--
Reads a command line.  A switch that is given before the verb and after it has the value
given after it.
-/
def parse (args : List String) : Except Stop Invocation := do
  let (top, verb) ← scanTop (⟨[], []⟩, none) args
  match verb with
  | none => return ⟨top.count .verbose, top.value? .config, .nothing⟩
  | some (verb, rest) =>
    let g ← scan verb (⟨[], []⟩, none) rest
    let task ← taskOf verb g
    return ⟨if g.has .verbose then g.count .verbose else top.count .verbose,
      (g.value? .config).or (top.value? .config), task⟩

end Command
end ScalarSsa
