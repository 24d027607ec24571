/-!
# White space around a text

**Input.** A text.

**Results.** `trim` removes white space at both ends, where white space is the Unicode
property of that name, and `isBlank` says that nothing else is there.
-/

namespace ScalarSsa
namespace Text

/-- The Unicode property `White_Space`. -/
def isSpace (c : Char) : Bool :=
  let n := c.toNat
  (0x9 ≤ n && n ≤ 0xD) || n == 0x20 || n == 0x85 || n == 0xA0 || n == 0x1680 ||
    (0x2000 ≤ n && n ≤ 0x200A)
    || n == 0x2028 || n == 0x2029 || n == 0x202F || n == 0x205F || n == 0x3000

/-- A text of white space only. -/
def isBlank (s : List Char) : Bool :=
  s.all isSpace

/-- The text without the white space at its ends. -/
def trim (s : List Char) : List Char :=
  ((s.dropWhile isSpace).reverse.dropWhile isSpace).reverse

end Text
end ScalarSsa
