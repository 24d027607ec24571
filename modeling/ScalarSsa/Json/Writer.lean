import ScalarSsa.Json.Basic
import ScalarSsa.Number.Layout

/-!
# Writing JSON text

**Input.** A document.

**Results.** `Json.compact` writes it without blanks.  `Json.pretty` writes one element or
field a line, two blanks deeper than the bracket that holds it.  Numbers take the `data`
layout; a double that is not finite is written as `null`.
-/

namespace ScalarSsa
namespace Json

/-- A lower-case hexadecimal digit. -/
def hexChar (n : Nat) : Char :=
  Nat.digitChar n

/-- One character inside a string. -/
def escapedChar (c : Char) : List Char :=
  if c = '"' then ['\\', '"']
  else if c = '\\' then ['\\', '\\']
  else if c = '\x08' then ['\\', 'b']
  else if c = '\x0c' then ['\\', 'f']
  else if c = '\n' then ['\\', 'n']
  else if c = '\r' then ['\\', 'r']
  else if c = '\t' then ['\\', 't']
  else if c.toNat < 0x20 then
    ['\\', 'u', '0', '0', hexChar (c.toNat / 16), hexChar (c.toNat % 16)]
  else [c]

/-- A string between its quotes. -/
def writeString (s : String) : List Char :=
  '"' :: s.toList.flatMap escapedChar ++ ['"']

/-- A double; JSON has no infinities and no NaN. -/
def writeReal (x : Float) : List Char :=
  if x.isFinite then (Number.Layout.data.write x).toList else "null".toList

mutual

/-- The characters of a document without blanks. -/
def write : Json → List Char
  | .null => "null".toList
  | .bool true => "true".toList
  | .bool false => "false".toList
  | .count n => Nat.toDigits 10 n
  | .real x => writeReal x
  | .string s => writeString s
  | .array [] => ['[', ']']
  | .array (j :: rest) => '[' :: (write j ++ writeElements rest)
  | .object [] => ['{', '}']
  | .object ((name, j) :: rest) =>
    '{' :: (writeString name ++ ':' :: (write j ++ writeFields rest))
  | .unrepresentable => "null".toList

/-- The elements after the first, and the closing bracket. -/
def writeElements : List Json → List Char
  | [] => [']']
  | j :: rest => ',' :: (write j ++ writeElements rest)

/-- The fields after the first, and the closing brace. -/
def writeFields : List (String × Json) → List Char
  | [] => ['}']
  | (name, j) :: rest => ',' :: (writeString name ++ ':' :: (write j ++ writeFields rest))

end

/-- The text of a document without blanks. -/
def compact (j : Json) : String :=
  String.ofList j.write

/-- A line break and the indentation of a level. -/
def newLine (level : Nat) : List Char :=
  '\n' :: List.replicate (2 * level) ' '

mutual

/-- The characters of a document with one element or field a line. -/
def writeLines (level : Nat) : Json → List Char
  | .array (j :: rest) =>
    '[' :: (newLine (level + 1) ++ writeLines (level + 1) j ++ elementLines level rest)
  | .object ((name, j) :: rest) =>
    '{' :: (newLine (level + 1) ++ writeString name ++ [':', ' '] ++
      writeLines (level + 1) j ++ fieldLines level rest)
  | j => write j

/-- The lines of the elements after the first, and the closing bracket. -/
def elementLines (level : Nat) : List Json → List Char
  | [] => newLine level ++ [']']
  | j :: rest =>
    ',' :: (newLine (level + 1) ++ writeLines (level + 1) j ++ elementLines level rest)

/-- The lines of the fields after the first, and the closing brace. -/
def fieldLines (level : Nat) : List (String × Json) → List Char
  | [] => newLine level ++ ['}']
  | (name, j) :: rest =>
    ',' :: (newLine (level + 1) ++ writeString name ++ [':', ' '] ++
      writeLines (level + 1) j ++ fieldLines level rest)

end

/-- The text of a document with one element or field a line. -/
def pretty (j : Json) : String :=
  String.ofList (j.writeLines 0)

end Json
end ScalarSsa
