import CircuitCalls.Circuit.Validity
import CircuitCalls.Qasm.Constant
import CircuitCalls.Qasm.Names
import CircuitCalls.Qasm.Parser.Statement
import CircuitCalls.Text.Lowercase

/-!
# Circuits from syntax trees

All declarations at the top level are made first, wherever they stand. After that each statement
becomes operations, which are added to the circuit before the next statement is looked at.
-/

namespace CircuitCalls.Qasm

/-! ## Operands -/

def checkIndex {kind : BitKind} (r : Register kind) (index : UInt32) : Except Error Unit :=
  if index < r.size then .ok () else .error (.indexOutOfRange r.name index r.size)

/-- The bits that are selected from a register (`selected`). -/
def Selection.bits {kind : BitKind} (r : Register kind) : Selection → Except Error (List (Bit kind))
  | all => .ok r.bits
  | index i => do
    checkIndex r i
    return [⟨r.name, i⟩]
  | slice first last => do
    checkIndex r first
    checkIndex r last
    return r.slice first last

/-- The bits of operands, in order (`resolve_qubits`, `resolve_clbits`). -/
def operandBits {kind : BitKind} (registers : List (Register kind)) :
    List Operand → Except Error (List (Bit kind))
  | [] => .ok []
  | operand :: rest => do
    let bits ← match findRegister? operand.register registers with
      | some r => operand.selection.bits r
      | none => .error (.undeclaredRegister operand.register)
    let more ← operandBits registers rest
    return bits ++ more

/-! ## Parameters -/

/-- The operators that stay part of a parameter. -/
def BinaryOperator.arithmetic? : BinaryOperator → Option Arithmetic
  | add => some .add
  | sub => some .sub
  | mul => some .mul
  | div => some .div
  | _ => none

/-- The parameter that an expression stands for (`expr_to_param`). Names are kept as symbols; functions and
the other operators have to be constant. -/
def Expression.parameter : Expression → Except Error Parameter
  | int v => .ok (.constant v.toFloat)
  | float v => .ok (.constant v)
  | constant .pi => .ok .pi
  | constant .tau => .ok (.binary .mul .pi (.constant 2))
  | constant c => .ok (.constant c.value)
  | name n => .ok (.symbol n)
  | unary .neg operand => do
    let p ← operand.parameter
    return .neg p
  | binary op left right => do
    let l ← left.parameter
    let r ← right.parameter
    match op.arithmetic? with
    | some arithmetic => return .binary arithmetic l r
    | none =>
      match (binary op left right).value? with
      | some v => return .constant v
      | none => throw (.unsupported (.operatorInParameter op))
  | call function [argument] =>
    match argument.value?.bind (applyFunction? function) with
    | some v => .ok (.constant v)
    | none => .error (.unsupported (.functionInParameter function))
  | call function _ => .error (.unsupported (.functionInParameter function))
  | bool b => .error (.unsupported (.parameter (bool b)))
  | unary .not operand => .error (.unsupported (.parameter (unary .not operand)))
  | index register i => .error (.unsupported (.parameter (index register i)))

/-! ## Gate calls -/

def liftCircuit {α : Type} : Except CircuitError α → Except Error α
  | .ok a => .ok a
  | .error e => .error (.circuit e)

/-- The gate with one modifier applied. -/
def Modifier.apply (gate : Gate) : Modifier → Except Error Gate
  | ctrl count => liftCircuit (gate.control count none)
  | negctrl count => liftCircuit (gate.control count (some 0))
  | inv => .error (.unsupported .inverse)
  | pow _ => .error (.unsupported .power)

/-- The gate with all modifiers applied, the last one first. -/
def applyModifiers (gate : Gate) : List Modifier → Except Error Gate
  | [] => .ok gate
  | modifier :: rest => do
    let inner ← applyModifiers gate rest
    modifier.apply inner

namespace GateCall

/-- The number of controls that the modifiers add, as an exact sum. In words of 32 bits a sum past the largest
one has no fixed result. -/
def controls (call : GateCall) : Nat := call.modifiers.foldl (fun count m => count + m.controls) 0

/-- The gate without its modifiers: a standard one, or a custom one on the operands that the controls
leave over. -/
def baseGate (call : GateCall) (parameters : List Parameter) (operands : Nat) : Except Error Gate := do
  match ← standardGate (lowercase call.name) parameters with
  | some g => return .standard g none
  | none =>
    -- an arity has 32 bits, and so has the number of operands that it is taken from
    let counted := min operands (UInt32.size - 1)
    if counted ≤ call.controls then
      throw (.operandCount call.name (call.controls + 1) operands)
    else
      return .custom ⟨call.name, UInt32.ofNat (counted - call.controls), parameters⟩ none

/-- The operations of a gate call (`lower_gate_call`). A gate on one qubit without modifiers is applied to
each operand in turn. -/
def operations (call : GateCall) (qregs : List (Register .quantum)) : Except Error (List Operation) := do
  let qubits ← operandBits qregs call.qubits
  let parameters ← call.parameters.mapM Expression.parameter
  let base ← call.baseGate parameters qubits.length
  if call.modifiers.isEmpty ∧ base.arity = 1 ∧ 1 < qubits.length then
    return qubits.map fun q => .gate base [q]
  else
    let gate ← applyModifiers base call.modifiers
    if qubits.length = gate.arity then
      return [.gate gate qubits]
    else
      throw (.operandCount call.name gate.arity qubits.length)

end GateCall

/-! ## Conditions and loops -/

/-- The classical bits that an expression reads, if it reads any (`condition_target`). -/
def conditionTarget? (cregs : List (Register .classical)) :
    Expression → Except Error (Option ConditionTarget)
  | .name n => .ok (if (findRegister? n cregs).isSome then some (.register n) else none)
  | .index register i =>
    match i.natural? with
    | some i =>
      if i < UInt32.size then do
        let bits ← operandBits cregs [⟨register, .index (UInt32.ofNat i)⟩]
        return bits.head?.map .bit
      else .ok none
    | none => .ok none
  | _ => .ok none

/-- The number that the bits of a condition are compared with (`condition_value`). -/
def conditionValue? : Expression → Option UInt64
  | .bool b => some (if b then 1 else 0)
  | e => e.natural?.map UInt64.ofNat

/-- The bits that one side of a comparison reads, and the other side. -/
def comparison? (cregs : List (Register .classical)) (left right : Expression) :
    Except Error (Option (ConditionTarget × Expression)) := do
  match ← conditionTarget? cregs left with
  | some target => return some (target, right)
  | none =>
    match ← conditionTarget? cregs right with
    | some target => return some (target, left)
    | none => return none

/-- The condition that an expression stands for, if it is one (`lower_condition`): bits compared with a
constant, a bit, its negation, or a register of one bit. -/
def condition? (cregs : List (Register .classical)) : Expression → Except Error (Option Condition)
  | .binary .eq left right => do
    match ← comparison? cregs left right with
    | some (target, other) => return (conditionValue? other).map fun value => ⟨target, value⟩
    | none => return none
  | .unary .not operand => do
    match ← conditionTarget? cregs operand with
    | some (.bit b) => return some ⟨.bit b, 0⟩
    | _ => return none
  | e => do
    match ← conditionTarget? cregs e with
    | some (.bit b) => return some ⟨.bit b, 1⟩
    | some (.register name) =>
      if (findRegister? name cregs).map (·.size) = some 1 then return some ⟨.register name, 1⟩
      else return none
    | none => return none

def condition (cregs : List (Register .classical)) (e : Expression) : Except Error Condition := do
  match ← condition? cregs e with
  | some c => return c
  | none => throw (.unsupported (.condition e))

def loopBound (e : Expression) : Except Error Int64 :=
  match e.integer? with
  | some v => .ok v
  | none => .error (.unsupported (.loopBound e))

/-- The first number past `finish` in the direction of `step`. -/
def pastEnd? (finish step : Int64) : Option Int64 :=
  let past := finish.toInt + step.toInt.sign
  if Int64.minValue.toInt ≤ past ∧ past ≤ Int64.maxValue.toInt then some (Int64.ofInt past) else none

/-- The range from `start` to `finish`, both included. -/
def inclusiveRange (start finish step : Int64) : Except Error Iteration :=
  match pastEnd? finish step with
  | some stop => liftCircuit (Iteration.ofRange start stop step)
  | none => .error (.unsupported .loopBoundOverflow)

/-- The values of a loop variable (`lower_iteration`). -/
def LoopDomain.iteration : LoopDomain → Except Error Iteration
  | range start step finish => do
    let start ← loopBound start
    let finish ← loopBound finish
    let step ← match step with
      | some step => loopBound step
      | none => pure 1
    inclusiveRange start finish step
  | values items => do
    let bounds ← items.mapM loopBound
    return .values bounds

/-! ## Statements -/

def delayDuration (e : Expression) : Except Error UInt64 :=
  match e.natural? with
  | some n => .ok (UInt64.ofNat n)
  | none => .error (.unsupported .delayDuration)

def measureOperations (c : Circuit) (qubits bits : List Operand) : Except Error (List Operation) := do
  if bits.isEmpty then
    throw (.unsupported .measureWithoutTarget)
  let qubits ← operandBits c.qregs qubits
  let clbits ← operandBits c.cregs bits
  let op ← liftCircuit (Operation.measureInto qubits clbits)
  return [op]

mutual

/-- The operations of a statement, with the registers of `c` declared (`lower_statement`). -/
def Statement.operations (c : Circuit) : Statement → Except Error (List Operation)
  | .includeFile _ => .ok []
  | .declare _ name _ => .error (.unsupported (.nestedDeclaration name))
  | .gate call => call.operations c.qregs
  | .measure qubits bits => measureOperations c qubits bits
  | .reset qubits => do
    let qubits ← operandBits c.qregs qubits
    return [.directive .reset qubits]
  | .barrier [] => .ok [.directive .barrier (c.qregs.flatMap Register.bits)]
  | .barrier qubits => do
    let qubits ← operandBits c.qregs qubits
    return [.directive .barrier qubits]
  | .delay duration qubits => do
    let duration ← delayDuration duration
    let qubits ← operandBits c.qregs qubits
    return [.directive (.delay duration) qubits]
  | .ifElse test thenBody elseBody => do
    let condition ← condition c.cregs test
    let thenOps ← bodyOperations c thenBody
    match elseBody with
    | some body =>
      let elseOps ← bodyOperations c body
      return [.ifElse condition thenOps (some elseOps)]
    | none => return [.ifElse condition thenOps none]
  | .whileLoop test body => do
    let condition ← condition c.cregs test
    let ops ← bodyOperations c body
    return [.whileLoop condition ops]
  | .forLoop loopVar domain body => do
    let iteration ← domain.iteration
    let ops ← bodyOperations c body
    return [.forLoop iteration (some loopVar) ops]

/-- The operations of statements, in order (`lower_body`). -/
def bodyOperations (c : Circuit) : List Statement → Except Error (List Operation)
  | [] => .ok []
  | s :: rest => do
    let ops ← s.operations c
    let more ← bodyOperations c rest
    return ops ++ more

end

/-! ## Whole sources -/

/-- Makes a declaration; any other statement is left for later. -/
def Statement.declareIn (c : Circuit) : Statement → Except Error Circuit
  | .declare kind name size =>
    if (c.qreg? name).isSome || (c.creg? name).isSome then .error (.duplicateRegister name)
    else
      match kind with
      | .quantum => liftCircuit (c.addQreg name size)
      | .classical => liftCircuit (c.addCreg name size)
  | _ => .ok c

/-- Adds the operations of a statement that is not a declaration. -/
def Statement.appendTo (c : Circuit) : Statement → Except Error Circuit
  | .declare _ _ _ => .ok c
  | s => do
    let ops ← s.operations c
    liftCircuit (ops.foldlM Circuit.append c)

namespace Script

/-- The circuit of a source (`lower_to_circuit`). -/
def circuit (s : Script) : Except Error Circuit := do
  let declared ← s.statements.foldlM Statement.declareIn (Circuit.empty "qasm_circuit")
  s.statements.foldlM Statement.appendTo declared

end Script

/-- The circuit of a source text (`parse`). -/
def readCircuit (source : String) : Except Error Circuit := do
  let script ← Script.parse source
  script.circuit

end CircuitCalls.Qasm
