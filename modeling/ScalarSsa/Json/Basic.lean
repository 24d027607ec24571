/-!
# JSON values

**Results.** `Json` is the type of JSON documents.  Objects keep their fields in written
order, repeated names included.  Numbers come in two kinds: a `count` is a plain
non-negative integer below `2 ^ 64`, and every other number is a `real`.
-/

namespace ScalarSsa

/-- A JSON document. -/
inductive Json where
  | null
  | bool (b : Bool)
  /-- A plain non-negative integer. -/
  | count (n : Nat)
  /-- Any other number. -/
  | real (x : Float)
  | string (s : String)
  | array (elements : List Json)
  /-- Fields in written order. -/
  | object (fields : List (String × Json))
  /-- Correct text that stands for no value: a number that is read as no finite double, or a
  string with half a surrogate pair. -/
  | unrepresentable
  deriving Inhabited

namespace Json

mutual

/-- No part of the document is unrepresentable. -/
def isRepresentable : Json → Bool
  | .unrepresentable => false
  | .array elements => allRepresentable elements
  | .object fields => fieldsRepresentable fields
  | _ => true

/-- No element is unrepresentable. -/
def allRepresentable : List Json → Bool
  | [] => true
  | j :: rest => j.isRepresentable && allRepresentable rest

/-- No field is unrepresentable. -/
def fieldsRepresentable : List (String × Json) → Bool
  | [] => true
  | (_, j) :: rest => j.isRepresentable && fieldsRepresentable rest

end

/-- The values of the fields with a given name, in written order. -/
def fieldsNamed (name : String) (fields : List (String × Json)) : List Json :=
  (fields.filter fun field => field.1 == name).map (·.2)

end Json

end ScalarSsa
