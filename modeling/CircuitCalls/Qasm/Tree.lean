import CircuitCalls.Bit

/-!
# Syntax trees of OpenQASM

Only what has a counterpart in a circuit has a node: declarations, gate calls with modifiers,
measurements, the three directives, and conditionals and loops.
-/

namespace CircuitCalls.Qasm

inductive MathConstant where
  | pi | tau | euler
deriving DecidableEq, Repr

inductive UnaryOperator where
  | neg | not
deriving DecidableEq, Repr

inductive BinaryOperator where
  | add | sub | mul | div | mod | pow
  | eq | notEq | lt | ltEq | gt | gtEq
  | and | or | bitAnd | bitOr | bitXor | shiftLeft | shiftRight
deriving DecidableEq, Repr

/-- An expression; parentheses leave no node behind. -/
inductive Expression where
  | int (value : Int64)
  | float (value : Float)
  | bool (value : Bool)
  | constant (constant : MathConstant)
  /-- A register, a loop variable or a free parameter. -/
  | name (name : String)
  | unary (op : UnaryOperator) (operand : Expression)
  | binary (op : BinaryOperator) (left right : Expression)
  | call (function : String) (arguments : List Expression)
  /-- One bit of a register. -/
  | index (register : String) (index : Expression)

/-- The part of a register that an operand names. -/
inductive Selection where
  | all
  | index (index : UInt32)
  /-- From `first` to `last`, both included. -/
  | slice (first last : UInt32)
deriving DecidableEq, Repr

/-- A register or a part of one. -/
structure Operand where
  register : String
  selection : Selection
deriving DecidableEq, Repr

/-- What stands before the name of a gate. -/
inductive Modifier where
  | ctrl (count : UInt32)
  | negctrl (count : UInt32)
  | inv
  | pow (exponent : Expression)

/-- A gate applied to operands, its outermost modifier first. -/
structure GateCall where
  name : String
  parameters : List Expression
  qubits : List Operand
  modifiers : List Modifier

/-- What a loop runs over. -/
inductive LoopDomain where
  /-- From `start` to `finish`, both included, by `step` if there is one. -/
  | range (start : Expression) (step : Option Expression) (finish : Expression)
  | values (values : List Expression)

/-- A statement. -/
inductive Statement where
  | includeFile (path : String)
  | declare (kind : BitKind) (name : String) (size : UInt32)
  | gate (call : GateCall)
  /-- A measurement that names no classical bits has none in `bits`. -/
  | measure (qubits bits : List Operand)
  | reset (qubits : List Operand)
  /-- A barrier without operands is for all qubits. -/
  | barrier (qubits : List Operand)
  | delay (duration : Expression) (qubits : List Operand)
  | ifElse (condition : Expression) (thenBody : List Statement) (elseBody : Option (List Statement))
  | whileLoop (condition : Expression) (body : List Statement)
  | forLoop (loopVar : String) (domain : LoopDomain) (body : List Statement)

/-- A source file. -/
structure Script where
  version : String
  statements : List Statement

/-- How tightly the operator binds (`precedence`). -/
def BinaryOperator.precedence : BinaryOperator → Nat
  | or => 1
  | and => 2
  | bitOr => 3
  | bitXor => 4
  | bitAnd => 5
  | eq | notEq => 6
  | lt | ltEq | gt | gtEq => 7
  | shiftLeft | shiftRight => 8
  | add | sub => 9
  | mul | div | mod => 10
  | pow => 11

/-- The number of controls that the modifier adds (`num_controls`). -/
def Modifier.controls : Modifier → Nat
  | ctrl count => count.toNat
  | negctrl count => count.toNat
  | inv => 0
  | pow _ => 0

end CircuitCalls.Qasm
