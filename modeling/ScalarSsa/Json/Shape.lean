import ScalarSsa.Json.Basic
import ScalarSsa.Number.Nearest

/-!
# Records in JSON documents

**Input.** A document that should be a record with known fields.

**Results.** A record is written as an object, whose fields stand in any order beside fields
of unknown name, or as an array of its fields in their declared order.  `fields` gives the
values of the known fields in declared order under either form.  `tagged` splits off the
field that names the variant of a record.
-/

namespace ScalarSsa
namespace Json

/-- Why a document is not the record that was asked for. -/
inductive Mismatch where
  | expected (what : String)
  | missing (field : String)
  | repeated (field : String)
  | tooMany
  | unknownVariant (tag : String)
  deriving DecidableEq, Repr

/-- The wording of a mismatch. -/
def Mismatch.message : Mismatch → String
  | .expected what => "expected " ++ what
  | .missing field => "missing field '" ++ field ++ "'"
  | .repeated field => "repeated field '" ++ field ++ "'"
  | .tooMany => "too many entries"
  | .unknownVariant tag => "unknown variant '" ++ tag ++ "'"

/-- The one value of a named field, or none. -/
def fieldOf (written : List (String × Json)) (name : String) :
    Except Mismatch (Option Json) :=
  match fieldsNamed name written with
  | [] => .ok none
  | [j] => .ok (some j)
  | _ => .error (.repeated name)

/-- The values of fields in their declared order, from either form of a record. -/
def fields (names : List String) : Json → Except Mismatch (List (Option Json))
  | .object written => names.mapM (fieldOf written)
  | .array elements =>
    if names.length < elements.length then .error .tooMany
    else .ok (elements.map some ++ List.replicate (names.length - elements.length) none)
  | _ => .error (.expected "a record")

/-- The tag of a record and the record of its other fields. -/
def tagged (tag : String) : Json → Except Mismatch (Json × Json)
  | .object written => do
    match ← fieldOf written tag with
    | some j => return (j, .object (written.filter fun field => field.1 != tag))
    | none => throw (.missing tag)
  | .array (j :: rest) => .ok (j, .array rest)
  | .array [] => .error (.missing tag)
  | _ => .error (.expected "a tagged record")

/-- The value of a field that has to be there. -/
def required (name : String) : Option Json → Except Mismatch Json
  | some j => .ok j
  | none => .error (.missing name)

/-- A string. -/
def asString : Json → Except Mismatch String
  | .string s => .ok s
  | _ => .error (.expected "a string")

/-- A string of exactly one character. -/
def asChar : Json → Except Mismatch Char
  | .string s =>
    match s.toList with
    | [c] => .ok c
    | _ => .error (.expected "a character")
  | _ => .error (.expected "a character")

/-- Any number, as a double. -/
def asFloat : Json → Except Mismatch Float
  | .count n => .ok (Number.ofNat n)
  | .real x => .ok x
  | _ => .error (.expected "a number")

/-- A plain non-negative integer. -/
def asCount : Json → Except Mismatch Nat
  | .count n => .ok n
  | _ => .error (.expected "a count")

/-- A truth value. -/
def asBool : Json → Except Mismatch Bool
  | .bool b => .ok b
  | _ => .error (.expected "a truth value")

/-- The elements of an array. -/
def asArray : Json → Except Mismatch (List Json)
  | .array elements => .ok elements
  | _ => .error (.expected "an array")

mutual

/-- The number of brackets open at once in the document's text. -/
def depth : Json → Nat
  | .array elements => elementsDepth elements + 1
  | .object fields => fieldsDepth fields + 1
  | _ => 0

/-- The largest depth of an element. -/
def elementsDepth : List Json → Nat
  | [] => 0
  | j :: rest => max j.depth (elementsDepth rest)

/-- The largest depth of a field. -/
def fieldsDepth : List (String × Json) → Nat
  | [] => 0
  | (_, j) :: rest => max j.depth (fieldsDepth rest)

end

end Json
end ScalarSsa
