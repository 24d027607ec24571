import ScalarSsa.Number.Layout

/-!
# Host functions

**Input.** The name of a function without a body and the doubles that it is called with.

**Results.** `HostCall.result` is the value of the call or the reason why there is none, and
`HostCall.output` the bytes that the call writes.  Only the two output functions write
anything, and their value is zero: the standard error stream that they write to is assumed
to take every byte, so that there is no fault of a failed write.
-/

namespace ScalarSsa

/-- One call of a function that has no body. -/
structure HostCall where
  name : String
  args : List Float
  deriving DecidableEq, Repr, Inhabited

/-- Why a host call has no value. -/
inductive HostFault where
  | missingArgument (name : String) (position : Nat)
  | noImplementation (name : String)
  deriving DecidableEq, Repr

/-- The wording of a host fault. -/
def HostFault.message : HostFault → String
  | .missingArgument name position =>
    "host function '" ++ name ++ "' expects argument " ++ toString position
  | .noImplementation name =>
    "no host implementation for external function '" ++ name ++ "'"

/-- The functions that the host provides. -/
inductive HostFunction where
  | sin
  | cos
  | sqrt
  | putchard
  | printd
  deriving DecidableEq, Repr

namespace HostFunction

/-- All host functions, in the order in which they are declared. -/
def all : List HostFunction :=
  [.sin, .cos, .sqrt, .putchard, .printd]

/-- The name of a host function. -/
def name : HostFunction → String
  | .sin => "sin"
  | .cos => "cos"
  | .sqrt => "sqrt"
  | .putchard => "putchard"
  | .printd => "printd"

/-- The number of arguments; all host functions have one. -/
def arity (_ : HostFunction) : Nat :=
  1

/-- The host function of a name. -/
def named? (name : String) : Option HostFunction :=
  all.find? fun h => h.name == name

/-- The value at an argument. -/
def apply : HostFunction → Float → Float
  | .sin, x => x.sin
  | .cos, x => x.cos
  | .sqrt, x => x.sqrt
  | .putchard, _ => 0.0
  | .printd, _ => 0.0

/--
The bytes written at an argument: one byte, the argument cut to a byte from zero to 255, or
a line with six decimal places.
-/
def output : HostFunction → Float → List UInt8
  | .putchard, x => [x.toUInt8]
  | .printd, x => (Number.fixed x 6 ++ "\n").toUTF8.toList
  | _, _ => []

end HostFunction

namespace HostCall

/-- The value of a call. -/
def result (call : HostCall) : Except HostFault Float :=
  match HostFunction.named? call.name, call.args with
  | some h, x :: _ => .ok (h.apply x)
  | some _, [] => .error (.missingArgument call.name 0)
  | none, _ => .error (.noImplementation call.name)

/-- The bytes that a call writes. -/
def output (call : HostCall) : List UInt8 :=
  match HostFunction.named? call.name, call.args with
  | some h, x :: _ => h.output x
  | _, _ => []

end HostCall

end ScalarSsa
