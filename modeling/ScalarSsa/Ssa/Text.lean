import ScalarSsa.Ssa.Module

/-!
# The text of functions and modules

**Results.** `Function.text` shows a declaration on one line and a definition with one line
for each instruction.  `Module.text` shows the functions with an empty line between them.
-/

namespace ScalarSsa

/-- The lines of a block. -/
def Block.lines (b : Block) : List String :=
  (b.id.text ++ ": ; " ++ b.label) :: (b.instrs.map fun i => "  " ++ i.text) ++
    [match b.term with | some term => "  " ++ term.text | none => "  <unterminated>"]

/--
A function's name with its parameters by position, and the end of the line with their names.
-/
def Function.heading (f : Function) (opening : String) : String :=
  let positions := (List.range f.arity).map fun position =>
    "double " ++ (Operand.arg position).text
  "double @" ++ f.name ++ "(" ++ ", ".intercalate positions ++ ")" ++ opening ++ " ; (" ++
    ", ".intercalate f.params ++ ")"

/-- The lines of a function. -/
def Function.lines (f : Function) : List String :=
  if f.hasBody then
    ("define " ++ f.heading " \x7b") :: f.blocks.flatMap Block.lines ++ ["\x7d"]
  else ["declare " ++ f.heading ""]

/-- The text of a function. -/
def Function.text (f : Function) : String :=
  String.join (f.lines.map fun line => line ++ "\n")

/-- The text of a module. -/
def Module.text (m : Module) : String :=
  "\n".intercalate (m.functions.map Function.text)

end ScalarSsa
