import ScalarSsa.Json.Reader

/-!
# The grammar of JSON texts

**Definitions.** A `Spelling` is one way to write a document down: with the blanks between
its parts, the escapes in its strings and the digits of its numbers.  `Spelling.text` is the
text, `Spelling.value` the document that it stands for and `Spelling.depth` the number of
brackets that are open at once.  The rules are those of the strict grammar.
-/

namespace ScalarSsa
namespace Json

/-- Blanks between the parts of a document. -/
abbrev Blanks := { cs : List Char // ∀ c ∈ cs, isBlank c = true }

/-- No blanks. -/
def Blanks.none : Blanks :=
  ⟨[], fun _ h => (by cases h)⟩

/-! ## Numbers -/

/-- One or more decimal digits. -/
structure Digits where
  chars : List Char
  nonempty : chars ≠ []
  isDigit : ∀ c ∈ chars, c.isDigit = true

/-- An exponent with its mark, and with its sign if one is written. -/
structure Exponent where
  mark : Char
  isMark : mark = 'e' ∨ mark = 'E'
  /-- The sign is written, and it is a minus. -/
  sign : Option Bool
  digits : Digits

namespace Exponent

/-- The characters of an exponent. -/
def text (e : Exponent) : List Char :=
  match e.sign with
  | none => e.mark :: e.digits.chars
  | some false => e.mark :: '+' :: e.digits.chars
  | some true => e.mark :: '-' :: e.digits.chars

/-- The power of ten. -/
def value (e : Exponent) : Int :=
  match e.sign with
  | some true => -(naturalOf e.digits.chars : Int)
  | _ => (naturalOf e.digits.chars : Int)

end Exponent

/-- A number as it is written. -/
structure Numeral where
  negative : Bool
  whole : Digits
  /-- A zero stands alone before the point. -/
  leading : ∀ c rest, whole.chars ≠ '0' :: c :: rest
  fraction : Option Digits
  exponent : Option Exponent

namespace Numeral

/-- The digits after the point. -/
def places (n : Numeral) : List Char :=
  match n.fraction with
  | none => []
  | some digits => digits.chars

/-- The point and the digits after it. -/
def point (n : Numeral) : List Char :=
  match n.fraction with
  | none => []
  | some digits => '.' :: digits.chars

/-- The characters of the exponent. -/
def power (n : Numeral) : List Char :=
  match n.exponent with
  | none => []
  | some e => e.text

/-- The characters of a number after its sign. -/
def unsigned (n : Numeral) : List Char :=
  n.whole.chars ++ (n.point ++ n.power)

/-- The characters of a number. -/
def text (n : Numeral) : List Char :=
  if n.negative then '-' :: n.unsigned else n.unsigned

/-- The number, if a double can come near it. -/
def value (n : Numeral) : Json :=
  numeral n.negative n.whole.chars n.places (n.exponent.map Exponent.value)

end Numeral

/-! ## Strings -/

/-- The character stands for itself in a string. -/
def isPlain (c : Char) : Bool :=
  0x20 ≤ c.toNat && c != '"' && c != '\\'

/-- A character of a string as it is written, or one half of it. -/
inductive Mark where
  | plain (c : Char) (h : isPlain c = true)
  | escape (c e : Char) (h : simpleEscape c = some e)
  | unit (a b c d : Char) (u : Nat) (h : codeUnit a b c d = some u)

namespace Mark

/-- The characters of a mark. -/
def text : Mark → List Char
  | .plain c _ => [c]
  | .escape c _ _ => ['\\', c]
  | .unit a b c d _ _ => ['\\', 'u', a, b, c, d]

/-- What a mark stands for. -/
def piece : Mark → Piece
  | .plain c _ => .char c
  | .escape _ e _ => .char e
  | .unit _ _ _ _ u _ => .ofUnit u

/-- The text of a string after its opening quote. -/
def stringText (marks : List Mark) : List Char :=
  marks.flatMap text ++ ['"']

/-- The string, unless half a surrogate pair is missing. -/
def stringValue (marks : List Mark) : Option String :=
  (joined (marks.map piece)).map String.ofList

end Mark

/-- The name of a field, with the colon and the blanks around both. -/
structure FieldName where
  before : Blanks
  marks : List Mark
  between : Blanks
  after : Blanks

/-- The characters of a name up to its colon. -/
def FieldName.text (name : FieldName) : List Char :=
  name.before.1 ++ '"' :: (Mark.stringText name.marks ++ (name.between.1 ++ [':']))

/-! ## Documents -/

mutual

/-- A document as it is written. -/
inductive Spelling where
  | null
  | bool (b : Bool)
  | number (n : Numeral)
  | string (marks : List Mark)
  | emptyArray (blanks : Blanks)
  | array (elements : Elements)
  | emptyObject (blanks : Blanks)
  | object (fields : Fields)

/-- The elements of an array that has some. -/
inductive Elements where
  | last (before : Blanks) (s : Spelling) (after : Blanks)
  | more (before : Blanks) (s : Spelling) (after : Blanks) (rest : Elements)

/-- The fields of an object that has some. -/
inductive Fields where
  | last (name : FieldName) (s : Spelling) (after : Blanks)
  | more (name : FieldName) (s : Spelling) (after : Blanks) (rest : Fields)

end

mutual

/-- The characters of a document. -/
def Spelling.text : Spelling → List Char
  | .null => ['n', 'u', 'l', 'l']
  | .bool true => ['t', 'r', 'u', 'e']
  | .bool false => ['f', 'a', 'l', 's', 'e']
  | .number n => n.text
  | .string marks => '"' :: Mark.stringText marks
  | .emptyArray blanks => '[' :: (blanks.1 ++ [']'])
  | .array elements => '[' :: elements.text
  | .emptyObject blanks => '{' :: (blanks.1 ++ ['}'])
  | .object fields => '{' :: fields.text

/-- The characters of elements and of the closing bracket. -/
def Elements.text : Elements → List Char
  | .last before s after => before.1 ++ (s.text ++ (after.1 ++ [']']))
  | .more before s after rest => before.1 ++ (s.text ++ (after.1 ++ ',' :: rest.text))

/-- The characters of fields and of the closing brace. -/
def Fields.text : Fields → List Char
  | .last name s after => name.text ++ (name.after.1 ++ (s.text ++ (after.1 ++ ['}'])))
  | .more name s after rest =>
    name.text ++ (name.after.1 ++ (s.text ++ (after.1 ++ ',' :: rest.text)))

end

mutual

/-- The document. -/
def Spelling.value : Spelling → Json
  | .null => .null
  | .bool b => .bool b
  | .number n => n.value
  | .string marks =>
    match Mark.stringValue marks with
    | some s => .string s
    | none => .unrepresentable
  | .emptyArray _ => .array []
  | .array elements => .array elements.value
  | .emptyObject _ => .object []
  | .object fields =>
    match fields.value with
    | some fields => .object fields
    | none => .unrepresentable

/-- The elements. -/
def Elements.value : Elements → List Json
  | .last _ s _ => [s.value]
  | .more _ s _ rest => s.value :: rest.value

/-- The fields, unless a name is missing half a surrogate pair. -/
def Fields.value : Fields → Option (List (String × Json))
  | .last name s _ => do return [(← Mark.stringValue name.marks, s.value)]
  | .more name s _ rest =>
    do return (← Mark.stringValue name.marks, s.value) :: (← rest.value)

end

mutual

/-- The number of brackets that are open at once. -/
def Spelling.depth : Spelling → Nat
  | .emptyArray _ => 1
  | .array elements => elements.depth + 1
  | .emptyObject _ => 1
  | .object fields => fields.depth + 1
  | _ => 0

/-- The number of brackets that are open at once in an element. -/
def Elements.depth : Elements → Nat
  | .last _ s _ => s.depth
  | .more _ s _ rest => max s.depth rest.depth

/-- The number of brackets that are open at once in a field. -/
def Fields.depth : Fields → Nat
  | .last _ s _ => s.depth
  | .more _ s _ rest => max s.depth rest.depth

end

end Json
end ScalarSsa
