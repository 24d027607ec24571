import ScalarSsa.Text.Ignorable
import ScalarSsa.Text.Mark
import ScalarSsa.Text.Unassigned

/-!
# Quoted names

**Input.** A name, such as a path, that is shown inside a message.

**Results.** `quoted` puts it between double quotes.  Quotes, backslashes and the usual
control characters are escaped by a backslash; every other character that would not be seen
on its own is written as its code in braces.
-/

namespace ScalarSsa
namespace Text

/--
The closed ranges of control, format, separator and private characters, the space apart.
-/
def controls : List (Nat × Nat) :=
  [(0x0, 0x1F), (0x7F, 0xA0), (0xAD, 0xAD), (0x600, 0x605), (0x61C, 0x61C),
    (0x6DD, 0x6DD), (0x70F, 0x70F),
    (0x890, 0x891), (0x8E2, 0x8E2), (0x1680, 0x1680), (0x180E, 0x180E), (0x2000, 0x200F),
    (0x2028, 0x202F),
    (0x205F, 0x2064), (0x2066, 0x206F), (0x3000, 0x3000), (0xE000, 0xF8FF),
    (0xFEFF, 0xFEFF), (0xFFF9, 0xFFFB),
    (0x110BD, 0x110BD), (0x110CD, 0x110CD), (0x13430, 0x1343F), (0x1BCA0, 0x1BCA3),
    (0x1D173, 0x1D17A),
    (0xE0001, 0xE0001), (0xE0020, 0xE007F), (0xF0000, 0xFFFFD), (0x100000, 0x10FFFD)]

/-- A character that is not seen on its own. -/
def isUnseen (c : Char) : Bool :=
  inRanges controls c || isMark c || isExtender c || isIgnorable c || isUnassigned c

/-- One character of a quoted name. -/
def quotedChar (c : Char) : String :=
  if c = '"' then "\\\""
  else if c = '\\' then "\\\\"
  else if c = '\n' then "\\n"
  else if c = '\r' then "\\r"
  else if c = '\t' then "\\t"
  else if c.toNat = 0 then "\\0"
  else if isUnseen c then "\\u\x7b" ++ String.ofList (Nat.toDigits 16 c.toNat) ++ "\x7d"
  else c.toString

/-- A name between double quotes. -/
def quoted (s : String) : String :=
  "\"" ++ String.join (s.toList.map quotedChar) ++ "\""

/-- A bracketed list of quoted names. -/
def quotedList (names : List String) : String :=
  "[" ++ ", ".intercalate (names.map quoted) ++ "]"

end Text
end ScalarSsa
