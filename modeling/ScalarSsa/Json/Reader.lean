import ScalarSsa.Json.Basic
import ScalarSsa.Number.Scaled

/-!
# Reading JSON text

**Input.** The characters of a text and the number of brackets that may be open at once.

**Algorithm.** Recursive descent over the characters.  Every reader returns what it read and
the characters that are left.

**Results.** `Json.read` accepts exactly one document between blanks, in the strict grammar:
no trailing comma, no comment, no raw control character in a string.
-/

namespace ScalarSsa
namespace Json

/-- Why a text is no document. -/
inductive Error where
  | endOfText
  | unexpected (c : Char)
  | malformedNumber
  | malformedEscape
  | controlCharacter
  | tooDeep
  | trailing (c : Char)
  deriving DecidableEq, Repr

/-- The wording of an error. -/
def Error.message : Error → String
  | .endOfText => "the text ends inside a value"
  | .unexpected c => "unexpected character '" ++ c.toString ++ "'"
  | .malformedNumber => "malformed number"
  | .malformedEscape => "malformed escape sequence"
  | .controlCharacter => "control character inside a string"
  | .tooDeep => "brackets nest too deeply"
  | .trailing c => "trailing character '" ++ c.toString ++ "'"

/-- The four blanks of the grammar. -/
def isBlank (c : Char) : Bool :=
  c == ' ' || c == '\t' || c == '\n' || c == '\r'

/-- The characters after leading blanks. -/
def skipBlanks (cs : List Char) : List Char :=
  cs.dropWhile isBlank

/-- The error at the first of the characters left. -/
def stuck : List Char → Error
  | [] => .endOfText
  | c :: _ => .unexpected c

/-! ## Numbers -/

/-- The number that one more digit makes of a number. -/
def withDigit (n : Nat) (c : Char) : Nat :=
  10 * n + (c.toNat - '0'.toNat)

/-- The natural written by decimal digits. -/
def naturalOf (digits : List Char) : Nat :=
  digits.foldl withDigit 0

/-- At least one digit. -/
def readDigits (cs : List Char) : Except Error (List Char × List Char) :=
  match cs.takeWhile Char.isDigit with
  | [] => .error (match cs with | [] => .endOfText | _ => .malformedNumber)
  | digits => .ok (digits, cs.dropWhile Char.isDigit)

/-- The digits before the point: a zero stands alone. -/
def readWhole (cs : List Char) : Except Error (List Char × List Char) :=
  match readDigits cs with
  | .ok ('0' :: _ :: _, _) => .error .malformedNumber
  | result => result

/-- The digits after the point; none without a point. -/
def readFraction : List Char → Except Error (List Char × List Char)
  | '.' :: rest => readDigits rest
  | cs => .ok ([], cs)

/-- The exponent after its optional sign. -/
def readSigned : List Char → Except Error (Int × List Char)
  | '-' :: rest => (readDigits rest).map fun (digits, left) =>
    (-(naturalOf digits : Int), left)
  | '+' :: rest => (readDigits rest).map fun (digits, left) =>
    ((naturalOf digits : Int), left)
  | cs => (readDigits cs).map fun (digits, left) => ((naturalOf digits : Int), left)

/-- The exponent, if one is written. -/
def readExponent : List Char → Except Error (Option Int × List Char)
  | 'e' :: rest => (readSigned rest).map fun (e, left) => (some e, left)
  | 'E' :: rest => (readSigned rest).map fun (e, left) => (some e, left)
  | cs => .ok (none, cs)

/--
Appends digits to a number as long as it stays below `2 ^ 64`; with the digits from the
first that did not fit.
-/
def absorb (n : Nat) : List Char → Nat × List Char
  | [] => (n, [])
  | c :: rest =>
    if withDigit n c < UInt64.size then absorb (withDigit n c) rest else (n, c :: rest)

/--
The decimal of the digits around the point.  Digits that do not fit count as zeros before
the point and are left out after it.
-/
def decimalOf (whole fraction : List Char) : Number.Decimal :=
  let (n, zeros) := absorb 0 whole
  let (digits, left) := absorb n fraction
  ⟨digits, (zeros.length : Int) + left.length - fraction.length⟩

/-- The value of a numeral from its parts. -/
def numeral (negative : Bool) (whole fraction : List Char) (exponent : Option Int) : Json :=
  if !negative && fraction.isEmpty && exponent.isNone && naturalOf whole < UInt64.size then
    .count (naturalOf whole)
  else
    let d := decimalOf whole fraction
    match Number.Decimal.scaled ⟨d.digits, d.exponent + exponent.getD 0⟩ with
    | some x => .real (if negative then -x else x)
    | none => .unrepresentable

/-- A numeral without its sign. -/
def readUnsigned (negative : Bool) (cs : List Char) : Except Error (Json × List Char) := do
  let (whole, cs) ← readWhole cs
  let (fraction, cs) ← readFraction cs
  let (exponent, cs) ← readExponent cs
  return (numeral negative whole fraction exponent, cs)

/-- A numeral. -/
def readNumber : List Char → Except Error (Json × List Char)
  | '-' :: rest => readUnsigned true rest
  | cs => readUnsigned false cs

/-! ## Strings -/

/-- The value of a hexadecimal digit. -/
def hexDigit (c : Char) : Option Nat :=
  if c.isDigit then some (c.toNat - '0'.toNat)
  else if 'a' ≤ c ∧ c ≤ 'f' then some (c.toNat - 'a'.toNat + 10)
  else if 'A' ≤ c ∧ c ≤ 'F' then some (c.toNat - 'A'.toNat + 10)
  else none

/-- The code unit of four hexadecimal digits. -/
def codeUnit (a b c d : Char) : Option Nat := do
  let a ← hexDigit a
  let b ← hexDigit b
  let c ← hexDigit c
  let d ← hexDigit d
  return ((a * 16 + b) * 16 + c) * 16 + d

/-- First half of a surrogate pair. -/
def isHigh (unit : Nat) : Bool :=
  0xD800 ≤ unit && unit ≤ 0xDBFF

/-- Second half of a surrogate pair. -/
def isLow (unit : Nat) : Bool :=
  0xDC00 ≤ unit && unit ≤ 0xDFFF

/-- The character of a surrogate pair. -/
def pairChar (high low : Nat) : Char :=
  Char.ofNat (0x10000 + (high - 0xD800) * 0x400 + (low - 0xDC00))

/-- The character that a one-letter escape stands for. -/
def simpleEscape (c : Char) : Option Char :=
  if c = '"' then some '"'
  else if c = '\\' then some '\\'
  else if c = '/' then some '/'
  else if c = 'b' then some '\x08'
  else if c = 'f' then some '\x0c'
  else if c = 'n' then some '\n'
  else if c = 'r' then some '\r'
  else if c = 't' then some '\t'
  else none

/-- A piece of a string: a character, or one half of a surrogate pair. -/
inductive Piece where
  | char (c : Char)
  | half (unit : Nat)
  deriving DecidableEq, Repr

/-- The piece that a code unit stands for. -/
def Piece.ofUnit (unit : Nat) : Piece :=
  if isHigh unit || isLow unit then .half unit else .char (Char.ofNat unit)

/-- Puts a piece in front of the pieces read after it. -/
def onto (piece : Piece) : List Piece × List Char → List Piece × List Char
  | (pieces, left) => (piece :: pieces, left)

/-- The pieces of a string after its opening quote. -/
def readPieces : List Char → Except Error (List Piece × List Char)
  | [] => .error .endOfText
  | '"' :: rest => .ok ([], rest)
  | '\\' :: 'u' :: a :: b :: c :: d :: rest =>
    match codeUnit a b c d with
    | some unit => (readPieces rest).map (onto (.ofUnit unit))
    | none => .error .malformedEscape
  | '\\' :: c :: rest =>
    match simpleEscape c with
    | some e => (readPieces rest).map (onto (.char e))
    | none => .error .malformedEscape
  | ['\\'] => .error .endOfText
  | c :: rest =>
    if c.toNat < 0x20 then .error .controlCharacter
    else (readPieces rest).map (onto (.char c))

/-- The characters of the pieces, where every half meets its other half. -/
def joined : List Piece → Option (List Char)
  | [] => some []
  | .char c :: rest => (joined rest).map (c :: ·)
  | .half high :: .half low :: rest =>
    if isHigh high && isLow low then (joined rest).map (pairChar high low :: ·) else none
  | .half _ :: _ => none

/-- A string after its opening quote; `none` if it holds half a surrogate pair. -/
def readChars (cs : List Char) : Except Error (Option String × List Char) :=
  (readPieces cs).map fun (pieces, left) => ((joined pieces).map String.ofList, left)

/-! ## Documents -/

/-- A word of the grammar and the value that it stands for. -/
def readWord : List Char → Except Error (Json × List Char)
  | 'n' :: 'u' :: 'l' :: 'l' :: rest => .ok (.null, rest)
  | 't' :: 'r' :: 'u' :: 'e' :: rest => .ok (.bool true, rest)
  | 'f' :: 'a' :: 'l' :: 's' :: 'e' :: rest => .ok (.bool false, rest)
  | cs => .error (stuck cs)

/-- A scalar: a string, a number or a word. -/
def readScalar : List Char → Except Error (Json × List Char)
  | '"' :: rest => (readChars rest).map fun (s, left) =>
      (match s with | some s => .string s | none => .unrepresentable, left)
  | c :: rest =>
    if c == '-' || c.isDigit then readNumber (c :: rest) else readWord (c :: rest)
  | [] => .error .endOfText

/-- The name of a field and the colon after it. -/
def readName (cs : List Char) : Except Error (Option String × List Char) :=
  match skipBlanks cs with
  | '"' :: rest => do
    let (name, cs) ← readChars rest
    match skipBlanks cs with
    | ':' :: rest => return (name, rest)
    | cs => throw (stuck cs)
  | cs => .error (stuck cs)

mutual

/--
One value after blanks.  `fuel` bounds the calls that are open at once,
`depth` the brackets.
-/
def readValue : (fuel depth : Nat) → List Char → Except Error (Json × List Char)
  | 0, _, _ => .error .endOfText
  | fuel + 1, depth, cs =>
    match skipBlanks cs, depth with
    | '[' :: _, 0 => .error .tooDeep
    | '{' :: _, 0 => .error .tooDeep
    | '[' :: rest, depth + 1 =>
      match skipBlanks rest with
      | ']' :: left => .ok (.array [], left)
      | rest => (readElements fuel depth rest).map fun (elements, left) =>
        (.array elements, left)
    | '{' :: rest, depth + 1 =>
      match skipBlanks rest with
      | '}' :: left => .ok (.object [], left)
      | rest => (readFields fuel depth rest).map fun (fields, left) =>
          (match fields with
            | some fields => .object fields
            | none => .unrepresentable, left)
    | cs, _ => readScalar cs

/-- The elements of a non-empty array, to its closing bracket. -/
def readElements : (fuel depth : Nat) → List Char → Except Error (List Json × List Char)
  | 0, _, _ => .error .endOfText
  | fuel + 1, depth, cs => do
    let (element, cs) ← readValue fuel depth cs
    match skipBlanks cs with
    | ',' :: rest => (readElements fuel depth rest).map fun (elements, left) =>
      (element :: elements, left)
    | ']' :: left => return ([element], left)
    | cs => throw (stuck cs)

/--
The fields of a non-empty object, to its closing brace; `none` if a name is unrepresentable.
-/
def readFields :
    (fuel depth : Nat) → List Char →
      Except Error (Option (List (String × Json)) × List Char)
  | 0, _, _ => .error .endOfText
  | fuel + 1, depth, cs => do
    let (name, cs) ← readName cs
    let (value, cs) ← readValue fuel depth cs
    let field := name.map fun name => (name, value)
    match skipBlanks cs with
    | ',' :: rest => (readFields fuel depth rest).map fun (fields, left) =>
        ((do return (← field) :: (← fields)), left)
    | '}' :: left => return ((do return [← field]), left)
    | cs => throw (stuck cs)

end

/-- The one document of a text with at most `depth` brackets open at once. -/
def read (depth : Nat) (cs : List Char) : Except Error Json := do
  let (j, cs) ← readValue (2 * cs.length + 2) depth cs
  match skipBlanks cs with
  | [] => return j
  | c :: _ => throw (.trailing c)

end Json
end ScalarSsa
