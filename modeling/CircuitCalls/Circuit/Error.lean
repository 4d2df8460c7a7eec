import CircuitCalls.Bit

/-!
# What can be wrong with a circuit
-/

namespace CircuitCalls

/-- Why a gate, an operation or a circuit is refused. -/
inductive CircuitError where
  /-- An operand of `gate` is no declared qubit. -/
  | qubitNotFound (qubit : Qubit) (gate : Option String)
  | clbitNotFound (clbit : Clbit)
  /-- A condition reads a register that is not declared. -/
  | registerNotFound (name : String)
  | duplicateRegister (name : String)
  | qubitCountMismatch (gate : String) (expected got : Nat)
  | measureArityMismatch (qubits clbits : Nat)
  /-- The mask sets a bit past the last control. -/
  | invalidControlState (mask : UInt64) (controls : UInt32)
  /-- A mask is given for more controls than it has bits. -/
  | controlStateTooWide (controls : UInt32)
  | zeroStep
  | duplicateQubit (qubit : Qubit) (gate : Option String)
deriving DecidableEq, Repr

namespace CircuitError

/-- The gate an operand belongs to, in parentheses (`format_gate_context`). -/
def context : Option String → String
  | none => ""
  | some gate => " (gate: " ++ gate ++ ")"

def message : CircuitError → String
  | qubitNotFound qubit gate => "Qubit " ++ qubit.text ++ " not found in circuit" ++ context gate
  | clbitNotFound clbit => "Classical bit " ++ clbit.text ++ " not found in circuit"
  | registerNotFound name => "Classical register '" ++ name ++ "' not found in circuit"
  | duplicateRegister name => "Duplicate register '" ++ name ++ "'"
  | qubitCountMismatch gate expected got =>
    "Gate '" ++ gate ++ "' requires " ++ toString expected ++ " qubits, got " ++ toString got
  | measureArityMismatch qubits clbits =>
    "Measurement maps " ++ toString qubits ++ " qubits onto " ++ toString clbits ++ " classical bits"
  | invalidControlState mask controls =>
    "Control state 0b" ++ String.ofList (Nat.toDigits 2 mask.toNat) ++ " does not fit " ++
      toString controls.toNat ++ " controls"
  | controlStateTooWide controls =>
    "Control state cannot describe " ++ toString controls.toNat ++ " controls (at most 64)"
  | zeroStep => "For-loop range step must be non-zero"
  | duplicateQubit qubit gate => "Duplicate qubit " ++ qubit.text ++ " in operation" ++ context gate

end CircuitError

end CircuitCalls
