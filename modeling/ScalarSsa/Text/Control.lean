import ScalarSsa.Text.Range

/-!
# Control sequences of terminals

**Input.** A text that may hold control characters and the sequences that they open.

**Algorithm.** A phase keeps which part of a control sequence comes next.  Characters are
dropped until one is to be shown.  From there on they are shown up to the next control
character, whatever the phase.

**Results.** `plain` is the text without them.  Tab, line feed, form feed and
carriage return stay.
-/

namespace ScalarSsa
namespace Text

/-- The part of a control sequence that comes next. -/
inductive Phase where
  /-- Text. -/
  | ground
  /-- What stands behind an escape character. -/
  | escape
  /-- The rest of an escape sequence behind an intermediate character. -/
  | intermediate
  /-- The parameters and the final character of a control sequence. -/
  | sequence
  /-- The first character of a device control string. -/
  | device
  | deviceParameter
  | deviceIntermediate
  /-- A string to its terminator. -/
  | string
  /-- An operating system command to its bell. -/
  | command
  deriving DecidableEq, Repr

namespace Phase

/-- The phase behind a character of the seven-bit set that is no control character. -/
def afterGraphic (c : Char) : Phase → Phase
  | .ground => .ground
  | .escape =>
    if inRange 0x20 0x2F c then .intermediate
    else if c = '[' then .sequence
    else if c = ']' then .command
    else if c = 'P' then .device
    else if c = 'X' || c = '^' || c = '_' then .string
    else .ground
  | .intermediate => if inRange 0x20 0x2F c then .intermediate else .ground
  | .sequence => if inRange 0x20 0x3F c then .sequence else .ground
  | .device =>
    if inRange 0x20 0x2F c then .deviceIntermediate
    else if inRange 0x30 0x3F c then .deviceParameter
    else .string
  | .deviceParameter =>
    if inRange 0x20 0x2F c then .deviceIntermediate
    else if inRange 0x30 0x3B c then .deviceParameter
    else .string
  | .deviceIntermediate => if inRange 0x20 0x2F c then .deviceIntermediate else .string
  | .string => .string
  | .command => .command

/--
The phase behind a character beyond the seven-bit set.  Its encoding may hold the byte that
ends a string.
-/
def afterWide (c : Char) : Phase → Phase
  | .string => if (String.singleton c).toUTF8.toList.contains 0x9C then .ground else .string
  | p => p

/-- The phase behind a character. -/
def next (c : Char) (p : Phase) : Phase :=
  if c.toNat = 0x1B then .escape
  else if c.toNat = 0x18 || c.toNat = 0x1A then .ground
  else if inRange 0x20 0x7E c then p.afterGraphic c
  else if 0x80 ≤ c.toNat then p.afterWide c
  else if c.toNat = 0x07 && p = .command then .ground
  else p

/-- A control character that moves the place of output and stays in the text. -/
def isLayout (c : Char) : Bool :=
  c = '\t' || c = '\n' || c.toNat = 0x0C || c = '\r'

/-- A character that is shown as text. -/
def isText (c : Char) : Bool :=
  isLayout c || inRange 0x20 0x7E c || 0x80 ≤ c.toNat

/-- A character that is shown when it is met in a phase. -/
def shows (c : Char) : Phase → Bool
  | .ground => isText c
  | .escape | .intermediate | .sequence => isLayout c
  | _ => false

end Phase

/-- The characters that are shown.  `showing` says that the last one was. -/
def plainChars : (showing : Bool) → Phase → List Char → List Char
  | _, _, [] => []
  | true, p, c :: rest =>
    if Phase.isText c then c :: plainChars true (if 0x80 ≤ c.toNat then .ground else p) rest
    else plainChars false (p.next c) rest
  | false, p, c :: rest =>
    if p.shows c then c :: plainChars true p rest
    else plainChars false (p.next c) rest

/-- A text without control characters and control sequences. -/
def plain (s : String) : String :=
  String.ofList (plainChars false .ground s.toList)

end Text
end ScalarSsa
