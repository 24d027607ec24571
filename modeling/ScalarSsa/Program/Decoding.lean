import ScalarSsa.Program.Basic
import ScalarSsa.Json.Shape

/-!
# Items from JSON documents

**Input.** A document.

**Algorithm.** A record's tag is split off first; its other fields are then taken in
declared order.  The recursion into subexpressions is bounded by the depth of the document,
since every subexpression is a record of its own.

**Results.** `Item.ofJson` accepts objects with their fields in any order and beside unknown
fields, and arrays of fields in declared order.  Only `params` may be left out.
-/

namespace ScalarSsa

open Json

/-- The kinds of expressions, in declared order. -/
inductive Expr.Kind where
  | number
  | var
  | binary
  | call
  | cond
  deriving DecidableEq, Repr

/-- An expression's kind, from its name or from its place in the declared order. -/
def Expr.Kind.ofJson : Json → Except Mismatch Expr.Kind
  | .string "number" => .ok .number
  | .string "variable" => .ok .var
  | .string "binary" => .ok .binary
  | .string "call" => .ok .call
  | .string "if" => .ok .cond
  | .count 0 => .ok .number
  | .count 1 => .ok .var
  | .count 2 => .ok .binary
  | .count 3 => .ok .call
  | .count 4 => .ok .cond
  | .string other => .error (.unknownVariant other)
  | _ => .error (.expected "a kind of expression")

/-- The fields of each kind of expression. -/
def Expr.Kind.fieldNames : Expr.Kind → List String
  | .number => ["value"]
  | .var => ["name"]
  | .binary => ["op", "lhs", "rhs"]
  | .call => ["callee", "args"]
  | .cond => ["cond", "then_branch", "else_branch"]

/-- The values of fields that all have to be there. -/
def Json.allRequired (names : List String) (j : Json) : Except Mismatch (List Json) := do
  let values ← Json.fields names j
  (names.zip values).mapM fun (name, value) => required name value

/-- An expression from a document of at most `fuel` levels. -/
def Expr.decode : (fuel : Nat) → Json → Except Mismatch Expr
  | 0, _ => .error (.expected "an expression")
  | fuel + 1, j => do
    let (tag, rest) ← tagged "kind" j
    let kind ← Kind.ofJson tag
    match kind, ← Json.allRequired kind.fieldNames rest with
    | .number, [value] => return .number (← value.asFloat)
    | .var, [name] => return .var (← name.asString)
    | .binary, [op, lhs, rhs] =>
      return .binary (← op.asChar) (← Expr.decode fuel lhs) (← Expr.decode fuel rhs)
    | .call, [callee, args] =>
      return .call (← callee.asString) (← (← args.asArray).mapM (Expr.decode fuel))
    | .cond, [test, thenBranch, elseBranch] =>
      return .cond (← Expr.decode fuel test) (← Expr.decode fuel thenBranch)
        (← Expr.decode fuel elseBranch)
    | _, _ => throw (.expected "an expression")

/-- An expression from a document. -/
def Expr.ofJson (j : Json) : Except Mismatch Expr :=
  Expr.decode (j.depth + 1) j

/-- A signature from a document; without `params` there are no parameters. -/
def Signature.ofJson (j : Json) : Except Mismatch Signature := do
  match ← Json.fields ["name", "params"] j with
  | [name, params] =>
    let name ← (← required "name" name).asString
    match params with
    | some params => return ⟨name, ← (← params.asArray).mapM Json.asString⟩
    | none => return ⟨name, []⟩
  | _ => throw (.expected "a signature")

/-- A definition from a document. -/
def Definition.ofJson (j : Json) : Except Mismatch Definition := do
  match ← Json.allRequired ["proto", "body"] j with
  | [signature, body] => return ⟨← Signature.ofJson signature, ← Expr.ofJson body⟩
  | _ => throw (.expected "a definition")

/-- An item from a document. -/
def Item.ofJson (j : Json) : Except Mismatch Item := do
  let (tag, rest) ← tagged "item" j
  match tag with
  | .string "function" => return .definition (← Definition.ofJson rest)
  | .string "extern" => return .declaration (← Signature.ofJson rest)
  | .string "expr" => return .expression (← Expr.ofJson rest)
  | .string other => throw (.unknownVariant other)
  | _ => throw (.expected "a kind of item")

end ScalarSsa
