import CircuitCalls.Number.Layout
import CircuitCalls.Qasm.Tree

/-!
# Expressions by their structure

Error messages quote an expression by its nodes, not by its source:
`Binary { op: Eq, left: Ident("c"), right: Int(1) }`.
-/

namespace CircuitCalls.Qasm

/-- Numbers in a quoted expression: a whole number keeps `.0`, and magnitudes below `1e-4` or from
`1e16` on have an exponent with a sign only if it is negative. -/
def nodeLayout : Layout where
  positional e := -4 ≤ e && e ≤ 15
  pointZero := true
  plusSign := false
  exponentWidth := 1
  tie := .away
  notANumber := "NaN"
  infinity := "inf"
  negativeInfinity := "-inf"

def MathConstant.nodeName : MathConstant → String
  | pi => "Pi"
  | tau => "Tau"
  | euler => "Euler"

def UnaryOperator.nodeName : UnaryOperator → String
  | neg => "Neg"
  | not => "Not"

def BinaryOperator.nodeName : BinaryOperator → String
  | add => "Add"
  | sub => "Sub"
  | mul => "Mul"
  | div => "Div"
  | mod => "Mod"
  | pow => "Pow"
  | eq => "Eq"
  | notEq => "NotEq"
  | lt => "Lt"
  | ltEq => "LtEq"
  | gt => "Gt"
  | gtEq => "GtEq"
  | and => "And"
  | or => "Or"
  | bitAnd => "BitAnd"
  | bitOr => "BitOr"
  | bitXor => "BitXor"
  | shiftLeft => "LShift"
  | shiftRight => "RShift"

namespace Expression

mutual

/-- The nodes of an expression. -/
def nodeText : Expression → String
  | int value => "Int(" ++ toString value.toInt ++ ")"
  | float value => "Float(" ++ nodeLayout.write value ++ ")"
  | bool value => "Bool(" ++ toString value ++ ")"
  | constant c => "Constant(" ++ c.nodeName ++ ")"
  | name n => "Ident(\"" ++ n ++ "\")"
  | unary op operand => "Unary \x7b op: " ++ op.nodeName ++ ", operand: " ++ nodeText operand ++ " \x7d"
  | binary op left right =>
    "Binary \x7b op: " ++ op.nodeName ++ ", left: " ++ nodeText left ++ ", right: " ++ nodeText right ++
      " \x7d"
  | call function arguments =>
    "Call \x7b function: \"" ++ function ++ "\", args: [" ++
      ", ".intercalate (nodeTexts arguments) ++ "] \x7d"
  | index register i =>
    "Index \x7b register: \"" ++ register ++ "\", index: " ++ nodeText i ++ " \x7d"

def nodeTexts : List Expression → List String
  | [] => []
  | e :: rest => nodeText e :: nodeTexts rest

end

end Expression

end CircuitCalls.Qasm
