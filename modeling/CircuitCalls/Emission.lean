import CircuitCalls.Call.Basic
import CircuitCalls.Parameter.Text
import CircuitCalls.Settings

/-!
# From circuits to calls

`Circuit.emit` turns a circuit into a program: the two size calls, and then the calls of each
operation in document order. An operation that cannot be emitted stops the emission; the error names
its cause and the place of the operation.

Loop variables of nested loops get distinct names: a name that an enclosing loop already uses is
followed by an underscore and the least number that makes it new. A symbol in a gate parameter
follows the innermost loop over that symbol.
-/

namespace CircuitCalls

/-- The list in which an operation stands. -/
inductive Branch where
  | top
  | thenBody
  | elseBody
  | loopBody
deriving DecidableEq, Repr

/-- The place of an operation in the list it stands in. -/
structure Place where
  branch : Branch
  index : Nat
deriving DecidableEq, Repr

/-- The places of an operation and of those around it, outermost first. -/
abbrev Path := List Place

/-- Why an operation cannot be emitted. -/
inductive EmitFault where
  | unknownOperation (name : String)
  | unresolvedQubit (qubit : Qubit)
  | unresolvedClbit (clbit : Clbit)
  | unresolvedRegister (name : String)
  | zeroStep
  | countTooLarge (count : UInt64)
deriving DecidableEq

/-- A fault of the operation at `path`. -/
structure EmitError where
  fault : EmitFault
  path : Path
deriving DecidableEq

/-! ## Errors as text -/

def Branch.label : Branch → String
  | top => "ops"
  | thenBody => "then"
  | elseBody => "else"
  | loopBody => "body"

def Place.text (p : Place) : String := p.branch.label ++ "[" ++ toString p.index ++ "]"

/-- A path as it is written: `ops[3].then[0]` (`position`). -/
def pathText (path : Path) : String := ".".intercalate (path.map Place.text)

def EmitError.message (e : EmitError) : String :=
  let position := pathText e.path
  match e.fault with
  | .unknownOperation name => s!"Unknown operation '{name}' at {position}"
  | .unresolvedQubit q => s!"Qubit {q.text} at {position} was never indexed"
  | .unresolvedClbit b => s!"Classical bit {b.text} at {position} was never indexed"
  | .unresolvedRegister name => s!"Condition at {position} reads unknown register '{name}'"
  | .zeroStep => s!"Invalid loop at {position}: range step is zero"
  | .countTooLarge count =>
    s!"Invalid loop at {position}: iteration count {count.toNat} does not fit a loop bound"

/-! ## Loop variables -/

/-- A loop variable by its name in the circuit and its name in the program. -/
structure Binding where
  source : String
  emitted : String
deriving DecidableEq

/-- The enclosing loops, innermost first. -/
abbrev Scope := List Binding

namespace Scope

def uses (scope : Scope) (name : String) : Bool := scope.any (·.emitted == name)

/-- The candidates for a new name: one for each enclosing loop. -/
def candidates (scope : Scope) (source : String) : List String :=
  (List.range scope.length).map fun n => source ++ "_" ++ toString (n + 1)

/-- A name that no enclosing loop uses (`bind_loop_variable`). -/
def freshName (scope : Scope) (source : String) : String :=
  if scope.uses source then ((scope.candidates source).find? (!scope.uses ·)).getD source else source

/-- The name in the program of a symbol in the circuit (`rename`). -/
def rename (scope : Scope) (name : String) : String :=
  match scope.find? (·.source == name) with
  | some binding => binding.emitted
  | none => name

/-- The scope inside a loop. -/
def enter (scope : Scope) (source : String) : Scope := ⟨source, scope.freshName source⟩ :: scope

end Scope

/-! ## Calls of single operations -/

namespace Numbering

/-- The number of a bit, or the fault of a bit that has none. -/
def resolve {kind : BitKind} (fault : Bit kind → EmitFault) (n : Numbering kind) (b : Bit kind) :
    Except EmitFault Nat :=
  match n.get? b with
  | some i => .ok i
  | none => .error (fault b)

/-- The numbers of qubits (`resolve_qubits`). -/
def resolveQubits (n : Numbering .quantum) (qubits : List Qubit) : Except EmitFault (List Nat) :=
  qubits.mapM (n.resolve .unresolvedQubit)

def resolveClbits (n : Numbering .classical) (clbits : List Clbit) : Except EmitFault (List Nat) :=
  clbits.mapM (n.resolve .unresolvedClbit)

end Numbering

/-- The classical bits that a condition reads. -/
def Circuit.readBits (c : Circuit) : ConditionTarget → Except EmitFault (List Clbit)
  | .bit b => .ok [b]
  | .register name =>
    match c.creg? name with
    | some register => .ok register.bits
    | none => .error (.unresolvedRegister name)

/-- Loop bounds are signed words of 64 bits, so that a number of rounds has to be below 2 ^ 63. -/
def roundLimit : Nat := 0x8000000000000000

/-- What the emission of an operation depends on. -/
structure Surroundings where
  circuit : Circuit
  settings : Settings
  numbering : CircuitNumbering

namespace Surroundings

/-- A condition on numbered bits (`resolve_condition`, `translate`). -/
def guard (s : Surroundings) (condition : Condition) : Except EmitFault Guard := do
  let bits ← s.circuit.readBits condition.target
  let numbers ← s.numbering.clbits.resolveClbits bits
  return ⟨numbers, condition.value⟩

/-- The header of a loop over a variable (`loop_header`). -/
def header (loopVar : String) : Iteration → Except EmitFault LoopHeader
  | .range start stop step =>
    if step = 0 then .error .zeroStep else .ok (.range loopVar start stop step)
  | .values values => .ok (.values loopVar values)
  | .count count =>
    if count.toNat < roundLimit then .ok (.range loopVar 0 (Int64.ofNat count.toNat) 1)
    else .error (.countTooLarge count)

def sourceVar (s : Surroundings) (loopVar : Option String) : String :=
  loopVar.getD s.settings.defaultLoopVar

/-- The call that an operation makes or opens with; that of a gate is its `gate_call`. -/
def firstCall (s : Surroundings) (scope : Scope) : Operation → Except EmitFault Call
  | .gate gate qubits => do
    let operands ← s.numbering.qubits.resolveQubits qubits
    return .gate (gate.roles operands)
      (gate.parameters.map fun p => (p.rename scope.rename).argument)
  | .measure qubits clbits => do
    let qubits ← s.numbering.qubits.resolveQubits qubits
    let clbits ← s.numbering.clbits.resolveClbits clbits
    return .measure qubits clbits
  | .ifElse condition _ _ => do
    let guard ← s.guard condition
    return .beginIf guard
  | .whileLoop condition _ => do
    let guard ← s.guard condition
    return .beginWhile guard
  | .forLoop iteration loopVar _ => do
    let header ← header (scope.freshName (s.sourceVar loopVar)) iteration
    return .beginFor header
  | .directive directive _ => .error (.unknownOperation directive.name)

/-- The first call as a line, or the fault at the place of the operation. -/
def firstLine (s : Surroundings) (scope : Scope) (path : Path) (depth : Nat) (op : Operation) :
    Except EmitError Line :=
  match s.firstCall scope op with
  | .ok call => .ok ⟨depth, call⟩
  | .error fault => .error ⟨fault, path⟩

/-! ## Lists of operations -/

mutual

/-- The lines of an operation at `path` (`emit_operation`). -/
def lines (s : Surroundings) (scope : Scope) (path : Path) (depth : Nat) :
    Operation → Except EmitError (List Line)
  | .ifElse condition thenBody elseBody => do
    let first ← s.firstLine scope path depth (.ifElse condition thenBody elseBody)
    let thenLines ← s.bodyLines scope path .thenBody (depth + 1) 0 thenBody
    match elseBody with
    | some (op :: rest) =>
      let elseLines ← s.bodyLines scope path .elseBody (depth + 1) 0 (op :: rest)
      return first :: thenLines ++ ⟨depth, .otherwise⟩ :: elseLines ++ [⟨depth, .endBlock⟩]
    | _ => return first :: thenLines ++ [⟨depth, .endBlock⟩]
  | .whileLoop condition body => do
    let first ← s.firstLine scope path depth (.whileLoop condition body)
    let inner ← s.bodyLines scope path .loopBody (depth + 1) 0 body
    return first :: inner ++ [⟨depth, .endBlock⟩]
  | .forLoop iteration loopVar body => do
    let first ← s.firstLine scope path depth (.forLoop iteration loopVar body)
    let inner ← s.bodyLines (scope.enter (s.sourceVar loopVar)) path .loopBody (depth + 1) 0 body
    return first :: inner ++ [⟨depth, .endBlock⟩]
  | .gate gate qubits => do
    let line ← s.firstLine scope path depth (.gate gate qubits)
    return [line]
  | .measure qubits clbits => do
    let line ← s.firstLine scope path depth (.measure qubits clbits)
    return [line]
  | .directive directive qubits => do
    let line ← s.firstLine scope path depth (.directive directive qubits)
    return [line]

/-- The lines of a list of operations, the first of which has the place `index` in its branch (`emit_block`).
-/
def bodyLines (s : Surroundings) (scope : Scope) (path : Path) (branch : Branch) (depth index : Nat) :
    List Operation → Except EmitError (List Line)
  | [] => .ok []
  | op :: rest => do
    let head ← s.lines scope (path ++ [⟨branch, index⟩]) depth op
    let tail ← s.bodyLines scope path branch depth (index + 1) rest
    return head ++ tail

end

end Surroundings

namespace Circuit

/-- The program of a circuit (`emit`). -/
def emit (c : Circuit) (settings : Settings) : Except EmitError Program := do
  let numbering := c.numbering settings.discovery
  let body ← Surroundings.bodyLines ⟨c, settings, numbering⟩ [] [] .top 0 0 c.operations
  return ⟨⟨0, .setQubitCount numbering.qubits.size⟩ :: ⟨0, .setClbitCount numbering.clbits.size⟩ :: body⟩

end Circuit

end CircuitCalls
