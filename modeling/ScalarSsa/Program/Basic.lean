import ScalarSsa.Number.Layout

/-!
# Programs over doubles

**Results.** An `Expr` denotes a double.  A `Definition` gives a function its body, a
declaration gives only its `Signature`, and an `Item` is one unit of top-level input.
`Item.text` is the form in which items are shown.
-/

namespace ScalarSsa

/--
An expression; every value is a double.  A binary operator is any character: which operators
exist is decided when the expression is lowered.
-/
inductive Expr where
  | number (value : Float)
  | var (name : String)
  | binary (op : Char) (lhs rhs : Expr)
  | call (callee : String) (args : List Expr)
  | cond (test thenBranch elseBranch : Expr)
  deriving Inhabited

/-- A function's name and its ordered parameter names. -/
structure Signature where
  name : String
  params : List String
  deriving DecidableEq, Repr, Inhabited

/-- A function with its body. -/
structure Definition where
  signature : Signature
  body : Expr
  deriving Inhabited

/-- One unit of top-level input. -/
inductive Item where
  | definition (d : Definition)
  | declaration (s : Signature)
  | expression (e : Expr)
  deriving Inhabited

mutual

/-- The text of an expression. -/
def Expr.text : Expr → String
  | .number value => Number.Layout.code.write value
  | .var name => name
  | .binary op lhs rhs => "(" ++ lhs.text ++ " " ++ op.toString ++ " " ++ rhs.text ++ ")"
  | .call callee args => callee ++ "(" ++ ", ".intercalate (Expr.texts args) ++ ")"
  | .cond test thenBranch elseBranch =>
    "if " ++ test.text ++ " then " ++ thenBranch.text ++ " else " ++ elseBranch.text

/-- The texts of a list of expressions. -/
def Expr.texts : List Expr → List String
  | [] => []
  | e :: rest => e.text :: Expr.texts rest

end

/-- The number of parameters. -/
def Signature.arity (s : Signature) : Nat :=
  s.params.length

/-- The text of a signature. -/
def Signature.text (s : Signature) : String :=
  s.name ++ "(" ++ ", ".intercalate s.params ++ ")"

/-- The text of a definition. -/
def Definition.text (d : Definition) : String :=
  "def " ++ d.signature.text ++ " = " ++ d.body.text

/-- The text of an item. -/
def Item.text : Item → String
  | .definition d => d.text
  | .declaration s => "extern " ++ s.text
  | .expression e => e.text

end ScalarSsa
