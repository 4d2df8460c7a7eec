import CircuitCalls.Circuit.Basic

/-!
# Which operations a circuit admits

Every bit has to be declared, no qubit may occur twice in one operation, a gate has as many operands
as its arity, control masks fit their controls, a measurement has a classical bit for each qubit, and
a range has a step. The first violation is reported: the checks of an operation before those of the
operations inside it, and a branch that is taken before its alternative.
-/

namespace CircuitCalls

namespace Circuit

/-- Every qubit is declared and none of them has been `seen` before (`check_qubits`). -/
def checkQubits (c : Circuit) (gate : Option String) (seen : List Qubit) :
    List Qubit → Except CircuitError Unit
  | [] => .ok ()
  | q :: rest =>
    if c.hasQubit q = false then .error (.qubitNotFound q gate)
    else if q ∈ seen then .error (.duplicateQubit q gate)
    else checkQubits c gate (q :: seen) rest

def checkClbits (c : Circuit) : List Clbit → Except CircuitError Unit
  | [] => .ok ()
  | b :: rest => if c.hasClbit b then checkClbits c rest else .error (.clbitNotFound b)

def checkCondition (c : Circuit) (condition : Condition) : Except CircuitError Unit :=
  match condition.target with
  | .bit b => c.checkClbits [b]
  | .register name =>
    if (c.creg? name).isSome then .ok () else .error (.registerNotFound name)

def checkGate (c : Circuit) (gate : Gate) (qubits : List Qubit) : Except CircuitError Unit := do
  c.checkQubits (some gate.name) [] qubits
  if gate.arity ≠ qubits.length then
    throw (.qubitCountMismatch gate.name gate.arity qubits.length)
  gate.checkMasks

def checkMeasure (c : Circuit) (qubits : List Qubit) (clbits : List Clbit) : Except CircuitError Unit := do
  if qubits.length ≠ clbits.length then
    throw (.measureArityMismatch qubits.length clbits.length)
  c.checkQubits none [] qubits
  c.checkClbits clbits

def checkIteration : Iteration → Except CircuitError Unit
  | .range _ _ step => if step = 0 then .error .zeroStep else .ok ()
  | _ => .ok ()

mutual

/-- An operation and those inside it (`validate_operation`). -/
def check (c : Circuit) : Operation → Except CircuitError Unit
  | .gate gate qubits => c.checkGate gate qubits
  | .measure qubits clbits => c.checkMeasure qubits clbits
  | .ifElse condition thenBody elseBody => do
    c.checkCondition condition
    c.checkAll thenBody
    match elseBody with
    | some body => c.checkAll body
    | none => .ok ()
  | .whileLoop condition body => do
    c.checkCondition condition
    c.checkAll body
  | .forLoop iteration _ body => do
    checkIteration iteration
    c.checkAll body
  | .directive directive qubits => c.checkQubits (some directive.name) [] qubits

/-- Operations in order (`validate_bodies`). -/
def checkAll (c : Circuit) : List Operation → Except CircuitError Unit
  | [] => .ok ()
  | op :: rest => do
    c.check op
    c.checkAll rest

end

/-- All operations of the circuit (`validate`). -/
def validate (c : Circuit) : Except CircuitError Unit := c.checkAll c.operations

/-- Adds an operation at the end, if the circuit admits it (`append`). -/
def append (c : Circuit) (op : Operation) : Except CircuitError Circuit := do
  c.check op
  return { c with operations := c.operations ++ [op] }

end Circuit

end CircuitCalls
