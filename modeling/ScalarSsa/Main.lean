import ScalarSsa.Command.Dispatch

/-!
# The program

**Results.** `main` carries out a command line on the files and streams of the process.
-/

namespace ScalarSsa
namespace Command

/-- The number of a system error, which is given with either sign. -/
def errorNumber (code : UInt32) : UInt32 :=
  if code < 4096 then code else 0 - code

/-- The fault that a numbered error of the system stands for. -/
def faultOfNumber (code : UInt32) (details : String) : FileFault :=
  match (errorNumber code).toNat with
  | 1 => .system "Operation not permitted" 1
  | 2 => .notFound
  | 13 => .system "Permission denied" 13
  | 20 => .notDirectory
  | 21 => .isDirectory
  | 28 => .system "No space left on device" 28
  | 30 => .system "Read-only file system" 30
  | 36 => .nameTooLong
  | 40 => .system "Too many levels of symbolic links" 40
  | number => .system details number

/-- The fault that an error of the system stands for. -/
def faultOf : IO.Error → FileFault
  | .noFileOrDirectory _ code details => faultOfNumber code details
  | .permissionDenied _ code details => faultOfNumber code details
  | .inappropriateType _ code details => faultOfNumber code details
  | .invalidArgument _ code details => faultOfNumber code details
  | .resourceExhausted _ code details => faultOfNumber code details
  | .otherError code details => faultOfNumber code details
  | e => .system (toString e) 5

/-- Tries an operation of the system on a path. -/
def attempt {α : Type} (path : String) (op : IO α) : IO (Except FileFault α) := do
  match FileFault.ofPath path with
  | some fault => return .error fault
  | none =>
    match ← op.toBaseIO with
    | .ok a => return .ok a
    | .error e => return .error (faultOf e)

/-- Writes bytes to standard error. -/
def writeErr (bytes : List UInt8) : IO Unit := do
  let stream ← IO.getStderr
  stream.write ⟨bytes.toArray⟩
  stream.flush

/-- Writes a text to standard output. -/
def writeOut (text : String) : IO Unit := do
  let stream ← IO.getStdout
  stream.putStr text
  stream.flush

/-- The surroundings of the process. -/
def process : Surroundings IO where
  load path := attempt path (IO.FS.readBinFile path)
  save path text := attempt path (IO.FS.writeFile path text)
  out := writeOut
  err := writeErr

/-- The bytes up to the end of a line, behind those that were read before. -/
partial def readLine (input : IO.FS.Stream) (line : ByteArray) : IO ByteArray := do
  let next ← input.read 1
  if next.isEmpty then return line
  else if next.toList = [10] then return line ++ next
  else readLine input (line ++ next)

/-- Feeds the lines of standard input. -/
partial def feedLines (input : IO.FS.Stream) (r : Repl) : IO UInt32 := do
  let line ← readLine input .empty
  if line.isEmpty then return 0
  let result := r.feed (lineText line)
  writeErr result.err
  writeOut result.out
  if result.goesOn then feedLines input result.repl else return 1

end Command
end ScalarSsa

open ScalarSsa in
/-- Carries out a command line. -/
def main (args : List String) : IO UInt32 := do
  match Command.parse args with
  | .error .version =>
    Command.writeOut Command.versionText
    return 0
  | .error .help =>
    Command.writeOut Command.helpText
    return 0
  | .error .usage =>
    Command.writeErr (Command.helpText.toUTF8.toList)
    return 2
  | .ok inv =>
    match ← Command.execute Command.process inv with
    | .exit code => return code.toUInt32
    | .interactive r => Command.feedLines (← IO.getStdin) r
