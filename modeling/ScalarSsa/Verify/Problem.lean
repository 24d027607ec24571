import ScalarSsa.Ssa.Basic

/-!
# Problems of functions

**Results.** A `Problem` is one way in which a function's body breaks the rules.
`Malformed` holds all problems of a function in the order in which they are found.
-/

namespace ScalarSsa

/-- The place where an operand stands. -/
inductive Role where
  | condition
  | returned
  | incoming
  | operand
  | argument
  deriving DecidableEq, Repr, Inhabited

/-- The name of a role in problems. -/
def Role.text : Role → String
  | .condition => "branch condition"
  | .returned => "return value"
  | .incoming => "phi operand"
  | .operand => "operand"
  | .argument => "call argument"

/-- A broken rule. -/
inductive Problem where
  | entryHasPredecessors (entry : BlockId)
  | repeatedResult (id : ValueId)
  | noTerminator (block : BlockId) (label : String)
  | missingTarget (block target : BlockId)
  | wrongType (role : Role) (operand : Operand) (actual expected : ValueType)
  | undefinedOperand (role : Role) (operand : Operand)
  | latePhi (phi : ValueId) (block : BlockId)
  | strayEdge (phi : ValueId) (pred block : BlockId)
  | missingEdge (phi : ValueId) (pred : BlockId)
  | wrongArity (callee : String) (given expected : Nat)
  | missingCallee (callee : String)
  | edgeNotDominated (phi value : ValueId) (pred : BlockId)
  | usedTooEarly (value user : ValueId)
  | useNotDominated (value user : ValueId)
  | endNotDominated (value : ValueId) (block : BlockId)
  deriving DecidableEq, Repr, Inhabited

/-- The wording of a problem. -/
def Problem.message : Problem → String
  | .entryHasPredecessors entry => "entry block " ++ entry.text ++ " has predecessors"
  | .repeatedResult id => "value " ++ id.text ++ " is defined more than once"
  | .noTerminator block label =>
    "block " ++ block.text ++ " (" ++ label ++ ") has no terminator"
  | .missingTarget block target =>
    "block " ++ block.text ++ " branches to missing block " ++ target.text
  | .wrongType role operand actual expected =>
    role.text ++ " " ++ operand.text ++ " has type " ++ actual.text ++
      ", expected " ++ expected.text
  | .undefinedOperand role operand => role.text ++ " " ++ operand.text ++ " is not defined"
  | .latePhi phi block => "phi " ++ phi.text ++ " is not at the start of " ++ block.text
  | .strayEdge phi pred block =>
    "phi " ++ phi.text ++ " names " ++ pred.text ++
      " which is not a predecessor of " ++ block.text
  | .missingEdge phi pred =>
    "phi " ++ phi.text ++ " has no entry for predecessor " ++ pred.text
  | .wrongArity callee given expected =>
    "call to '" ++ callee ++ "' passes " ++ toString given ++ " arguments, expected " ++
      toString expected
  | .missingCallee callee => "call to missing function '" ++ callee ++ "'"
  | .edgeNotDominated phi value pred =>
    "phi " ++ phi.text ++ " uses " ++ value.text ++ " which does not dominate " ++ pred.text
  | .usedTooEarly value user =>
    value.text ++ " is used by " ++ user.text ++ " before it is defined"
  | .useNotDominated value user =>
    value.text ++ " does not dominate its use in " ++ user.text
  | .endNotDominated value block =>
    value.text ++ " does not dominate the terminator of " ++ block.text

/-- A function that breaks rules. -/
structure Malformed where
  function : String
  problems : List Problem
  deriving DecidableEq, Repr, Inhabited

/-- The wording of all problems of a function. -/
def Malformed.message (m : Malformed) : String :=
  "function '" ++ m.function ++ "' is malformed: " ++
    "; ".intercalate (m.problems.map Problem.message)

end ScalarSsa
