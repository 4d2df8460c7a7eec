import CircuitCalls.Circuit.Error
import CircuitCalls.Qasm.TreeText

/-!
# What can be wrong with a source

A source can fail as text (a token), as a tree (an unexpected token or the end) or as a circuit.
-/

namespace CircuitCalls.Qasm

/-- A form of a statement or an expression that has no counterpart in a circuit. -/
inductive Unsupported where
  | nestedDeclaration (name : String)
  | measureWithoutTarget
  | delayDuration
  | inverse
  | power
  | condition (expression : Expression)
  | loopBound (expression : Expression)
  | loopBoundOverflow
  | operatorInParameter (op : BinaryOperator)
  | functionInParameter (function : String)
  | parameter (expression : Expression)

inductive Error where
  | invalidToken (line : Nat) (text : String)
  | unexpectedToken (line : Nat) (expected found : String)
  | unexpectedEnd (expected : String)
  | invalidVersion (text : String)
  | undeclaredRegister (name : String)
  | duplicateRegister (name : String)
  | operandCount (gate : String) (expected given : Nat)
  | parameterCount (gate : String) (expected given : Nat)
  | indexOutOfRange (register : String) (index size : UInt32)
  | unsupported (construct : Unsupported)
  | circuit (error : CircuitError)

def Unsupported.message : Unsupported → String
  | nestedDeclaration name => s!"declaration of '{name}' inside a block"
  | measureWithoutTarget => "measure without a classical target"
  | delayDuration => "delay with a non-constant duration"
  | inverse => "inv @ modifier"
  | power => "pow @ modifier"
  | condition e => s!"condition {e.nodeText}"
  | loopBound e => s!"non-constant loop bound {e.nodeText}"
  | loopBoundOverflow => "loop bound overflows"
  | operatorInParameter op => s!"operator {op.nodeName} in a gate parameter"
  | functionInParameter function => s!"function call {function} in a gate parameter"
  | parameter e => s!"{e.nodeText} as a gate parameter"

def Error.message : Error → String
  | invalidToken line text => s!"line {line}: invalid token '{text}'"
  | unexpectedToken line expected found => s!"line {line}: expected {expected}, found '{found}'"
  | unexpectedEnd expected => s!"unexpected end of input, expected {expected}"
  | invalidVersion text => s!"unsupported OPENQASM version '{text}'"
  | undeclaredRegister name => s!"undeclared register '{name}'"
  | duplicateRegister name => s!"register '{name}' is declared more than once"
  | operandCount gate expected given => s!"'{gate}' acts on {expected} qubit(s) but was given {given}"
  | parameterCount gate expected given => s!"'{gate}' takes {expected} parameter(s) but was given {given}"
  | indexOutOfRange register index size =>
    s!"{register}[{index.toNat}] is past the end of a register of {size.toNat}"
  | unsupported construct => s!"unsupported construct: {construct.message}"
  | circuit e => e.message

end CircuitCalls.Qasm
