import CircuitCalls.Gate.Roles

/-!
# Simulator calls

A program for the simulator is a flat list of calls. Blocks are opened by a conditional or a loop and
closed by an end; each call carries the number of blocks around it.
-/

namespace CircuitCalls

/-- The bits that are read, least significant first, have to make up `value`. -/
structure Guard where
  clbits : List Nat
  value : UInt64
deriving DecidableEq, Repr

/-- How a loop variable runs. -/
inductive LoopHeader where
  /-- From `start` by `step` while it is below `stop`, or above it for a negative step. -/
  | range (loopVar : String) (start stop step : Int64)
  | values (loopVar : String) (values : List Int64)
deriving DecidableEq

/-- One call of the simulator or one bracket of a block. -/
inductive Call where
  | setQubitCount (count : Nat)
  | setClbitCount (count : Nat)
  | gate (roles : Roles Nat) (arguments : List String)
  | measure (qubits clbits : List Nat)
  | beginIf (guard : Guard)
  | otherwise
  | beginWhile (guard : Guard)
  | beginFor (header : LoopHeader)
  | endBlock
deriving DecidableEq

/-- A call inside `depth` blocks. -/
structure Line where
  depth : Nat
  call : Call
deriving DecidableEq

/-- A list of calls. -/
structure Program where
  lines : List Line
deriving DecidableEq

/-- The variable of a loop (`variable`). -/
def LoopHeader.loopVar : LoopHeader → String
  | range v _ _ _ => v
  | values v _ => v

namespace Call

def qubitCount? : Call → Option Nat
  | setQubitCount count => some count
  | _ => none

def clbitCount? : Call → Option Nat
  | setClbitCount count => some count
  | _ => none

def loopVar? : Call → Option String
  | beginFor header => some header.loopVar
  | _ => none

end Call

namespace Program

def calls (p : Program) : List Call := p.lines.map (·.call)

/-- The number of qubits, by the first call that sets it (`num_qubits`). -/
def qubitCount (p : Program) : Nat := (p.calls.findSome? Call.qubitCount?).getD 0

/-- The number of classical bits, by the first call that sets it (`num_clbits`). -/
def clbitCount (p : Program) : Nat := (p.calls.findSome? Call.clbitCount?).getD 0

/-- The variables of all loops, in order. -/
def loopVars (p : Program) : List String := p.calls.filterMap Call.loopVar?

end Program

end CircuitCalls
