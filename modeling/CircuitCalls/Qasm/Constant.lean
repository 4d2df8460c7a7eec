import CircuitCalls.Number.Binary
import CircuitCalls.Parameter.Basic
import CircuitCalls.Qasm.Tree

/-!
# Constant expressions

The value of an expression that is made of numbers and arithmetic only.
-/

namespace CircuitCalls.Qasm

def MathConstant.value : MathConstant → Float
  | pi => piValue
  | tau => 6.283185307179586
  | euler => 2.718281828459045

/-- The arithmetic that the operator stands for. -/
def BinaryOperator.apply? : BinaryOperator → Float → Float → Option Float
  | add, x, y => some (x + y)
  | sub, x, y => some (x - y)
  | mul, x, y => some (x * y)
  | div, x, y => some (x / y)
  | mod, x, y => some (floatRemainder x y)
  | pow, x, y => some (Float.pow x y)
  | _, _, _ => none

namespace Expression

/-- The value of a constant expression (`eval`). -/
def value? : Expression → Option Float
  | int v => some v.toFloat
  | float v => some v
  | constant c => some c.value
  | unary .neg operand => do
    let v ← operand.value?
    some (-v)
  | binary op left right => do
    let x ← left.value?
    let y ← right.value?
    op.apply? x y
  | _ => none

/-- A double as a whole number, if it is one and small enough to be exact. -/
def wholeNumber? (v : Float) : Option Int64 :=
  if isWhole v && v.abs < 9.0e15 then some v.toInt64 else none

/-- The value of a constant whole expression (`eval_int`). A literal and its negation are exact at any size.
-/
def integer? : Expression → Option Int64
  | int v => some v
  | unary .neg operand => do
    let v ← operand.integer?
    if v = Int64.minValue then none else some (-v)
  | e => do
    let v ← e.value?
    wholeNumber? v

def natural? (e : Expression) : Option Nat := do
  let v ← e.integer?
  if 0 ≤ v then some v.toInt.toNat else none

end Expression

/-- A mathematical function by its name (`apply_function`). -/
def applyFunction? (name : String) (x : Float) : Option Float :=
  match name with
  | "sin" => some x.sin
  | "cos" => some x.cos
  | "tan" => some x.tan
  | "arcsin" => some x.asin
  | "arccos" => some x.acos
  | "arctan" => some x.atan
  | "exp" => some x.exp
  | "ln" => some x.log
  | "sqrt" => some x.sqrt
  | _ => none

end CircuitCalls.Qasm
