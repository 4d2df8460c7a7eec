import CircuitCalls.Circuit.Validity

/-!
# Building circuits step by step

A `Step` adds one operation to the end of a circuit or declares a register. The bodies of
conditionals and loops are built by steps of their own. Only the finished operation is checked
against the registers; but a step that cannot be turned into an operation at all (a mask that does
not fit, a measurement of unequal lists, a range without a step) fails where it stands, before any
step that follows it.
-/

namespace CircuitCalls

/-- The values of the loop variable of a loop to be built. -/
inductive LoopSource where
  /-- A range whose step is checked before the body is built. -/
  | range (start stop step : Int64)
  | given (iteration : Iteration)

/-- One step in building a list of operations, a method of `CircuitBuilder` with its arguments. -/
inductive Step where
  | append (op : Operation)
  /-- `x` under one control for each of `controls`, and under as many as a word can count if they are more. -/
  | manyControlledX (controls : List Qubit) (target : Qubit)
  /-- A gate with more controls in front. -/
  | control (gate : Gate) (controls : UInt32) (mask : Option UInt64) (qubits : List Qubit)
  | measure (qubits : List Qubit) (clbits : List Clbit)
  | ifElse (condition : Condition) (thenSteps : List Step) (elseSteps : Option (List Step))
  | whileLoop (condition : Condition) (body : List Step)
  | forLoop (source : LoopSource) (loopVar : Option String) (body : List Step)

def LoopSource.iteration : LoopSource → Except CircuitError Iteration
  | range start stop step => Iteration.ofRange start stop step
  | given iteration => .ok iteration

namespace Step

def gate (g : Gate) (qubits : List Qubit) : Step := .append (.gate g qubits)

def reset (q : Qubit) : Step := .append (.directive .reset [q])

def barrier (qubits : List Qubit) : Step := .append (.directive .barrier qubits)

mutual

/-- The operation that a step hands to `append`. -/
def operation : Step → Except CircuitError Operation
  | append op => .ok op
  | manyControlledX controls target => do
    let g ← (Gate.fixed .x).control (UInt32.ofNatClamp controls.length) none
    return .gate (g.withLabel "mcx") (controls ++ [target])
  | control g controls mask qubits => do
    let g ← g.control controls mask
    return .gate g qubits
  | measure qubits clbits => Operation.measureInto qubits clbits
  | ifElse condition thenSteps elseSteps => do
    let thenBody ← operations thenSteps
    match elseSteps with
    | some steps =>
      let elseBody ← operations steps
      return .ifElse condition thenBody (some elseBody)
    | none => return .ifElse condition thenBody none
  | whileLoop condition body => do
    let body ← operations body
    return .whileLoop condition body
  | forLoop source loopVar body => do
    let iteration ← source.iteration
    let body ← operations body
    return .forLoop iteration loopVar body

def operations : List Step → Except CircuitError (List Operation)
  | [] => .ok []
  | step :: rest => do
    let op ← operation step
    let ops ← operations rest
    return op :: ops

end

end Step

namespace Circuit

/-- Takes one step; a step that fails leaves no circuit behind, so the caller keeps the old one. -/
def step (c : Circuit) (s : Step) : Except CircuitError Circuit := do
  let op ← s.operation
  c.append op

end Circuit

end CircuitCalls
