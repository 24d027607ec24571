import ScalarSsa.Program.Basic
import ScalarSsa.Json.Basic

/-!
# Items as JSON documents

**Results.** `Item.toJson` writes an item as an object whose field `item` names its kind.
Expressions are objects whose field `kind` names theirs; a top-level expression holds both
fields side by side.
-/

namespace ScalarSsa

mutual

/-- The fields of an expression, its kind first. -/
def Expr.fields : Expr → List (String × Json)
  | .number value => [("kind", .string "number"), ("value", .real value)]
  | .var name => [("kind", .string "variable"), ("name", .string name)]
  | .binary op lhs rhs =>
    [("kind", .string "binary"), ("op", .string op.toString), ("lhs", .object lhs.fields),
      ("rhs", .object rhs.fields)]
  | .call callee args =>
    [("kind", .string "call"), ("callee", .string callee),
      ("args", .array (Expr.listToJson args))]
  | .cond test thenBranch elseBranch =>
    [("kind", .string "if"), ("cond", .object test.fields),
      ("then_branch", .object thenBranch.fields),
      ("else_branch", .object elseBranch.fields)]

/-- The documents of a list of expressions. -/
def Expr.listToJson : List Expr → List Json
  | [] => []
  | e :: rest => .object e.fields :: Expr.listToJson rest

end

/-- The document of an expression. -/
def Expr.toJson (e : Expr) : Json :=
  .object e.fields

/-- The fields of a signature. -/
def Signature.fields (s : Signature) : List (String × Json) :=
  [("name", .string s.name), ("params", .array (s.params.map .string))]

/-- The document of an item. -/
def Item.toJson : Item → Json
  | .definition d =>
    .object [("item", .string "function"), ("proto", .object d.signature.fields),
      ("body", d.body.toJson)]
  | .declaration s => .object (("item", .string "extern") :: s.fields)
  | .expression e => .object (("item", .string "expr") :: e.fields)

end ScalarSsa
