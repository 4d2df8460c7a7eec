import CircuitCalls.Gate.Basic

/-!
# Operations

A circuit is a list of operations, some of which hold lists of operations themselves: conditionals
and loops. Functions on operations come in pairs, for one operation and for a list of them.
-/

namespace CircuitCalls

inductive ConditionTarget where
  | bit (clbit : Clbit)
  /-- All bits of a register, its first bit being the least significant one. -/
  | register (name : String)
deriving DecidableEq, Repr

/-- The bits read as a number have to equal `value`. -/
structure Condition where
  target : ConditionTarget
  value : UInt64
deriving DecidableEq, Repr

/-- The values of a loop variable. -/
inductive Iteration where
  /-- From `start` by `step` until `stop` is reached or passed. -/
  | range (start stop step : Int64)
  | values (values : List Int64)
  /-- From zero upwards, this many values. -/
  | count (count : UInt64)
deriving DecidableEq

/-- Operations that act on qubits without being gates. -/
inductive Directive where
  | reset
  | barrier
  | delay (duration : UInt64)
deriving DecidableEq, Repr

/-- One step of a circuit. -/
inductive Operation where
  | gate (gate : Gate) (qubits : List Qubit)
  /-- The first qubit goes to the first classical bit, and so on. -/
  | measure (qubits : List Qubit) (clbits : List Clbit)
  | ifElse (condition : Condition) (thenBody : List Operation) (elseBody : Option (List Operation))
  | whileLoop (condition : Condition) (body : List Operation)
  | forLoop (iteration : Iteration) (loopVar : Option String) (body : List Operation)
  | directive (directive : Directive) (qubits : List Qubit)

/-- A range with a step other than zero (`range`). -/
def Iteration.ofRange (start stop step : Int64) : Except CircuitError Iteration :=
  if step = 0 then .error .zeroStep else .ok (.range start stop step)

/-- The range from zero below `stop` (`upto`). -/
def Iteration.upTo (stop : Int64) : Iteration := .range 0 stop 1

def Directive.name : Directive → String
  | reset => "reset"
  | barrier => "barrier"
  | delay _ => "delay"

namespace Operation

def name : Operation → String
  | gate g _ => g.name
  | measure _ _ => "measure"
  | ifElse _ _ _ => "if_else"
  | whileLoop _ _ => "while_loop"
  | forLoop _ _ _ => "for_loop"
  | directive d _ => d.name

/-- Whether the operation holds other operations (`is_control_flow`). -/
def isControlFlow : Operation → Bool
  | ifElse _ _ _ | whileLoop _ _ | forLoop _ _ _ => true
  | _ => false

/-- The lists of operations inside, a branch that is taken before its alternative (`bodies`). -/
def bodies : Operation → List (List Operation)
  | ifElse _ thenBody elseBody => thenBody :: elseBody.toList
  | whileLoop _ body => [body]
  | forLoop _ _ body => [body]
  | _ => []

/-- The qubits of this operation, not of those inside. -/
def qubits : Operation → List Qubit
  | gate _ qubits | measure qubits _ | directive _ qubits => qubits
  | _ => []

def clbits : Operation → List Clbit
  | measure _ clbits => clbits
  | _ => []

def condition? : Operation → Option Condition
  | ifElse condition _ _ | whileLoop condition _ => some condition
  | _ => none

/-- A measurement of as many qubits as there are classical bits (`measure`). -/
def measureInto (qubits : List Qubit) (clbits : List Clbit) : Except CircuitError Operation :=
  if qubits.length = clbits.length then .ok (.measure qubits clbits)
  else .error (.measureArityMismatch qubits.length clbits.length)

mutual

/-- The number of operations, with those inside, as `num_ops` counts them. -/
def count : Operation → Nat
  | ifElse _ thenBody elseBody =>
    1 + countAll thenBody + match elseBody with
      | some body => countAll body
      | none => 0
  | whileLoop _ body => 1 + countAll body
  | forLoop _ _ body => 1 + countAll body
  | _ => 1

def countAll : List Operation → Nat
  | [] => 0
  | op :: rest => count op + countAll rest

end

mutual

/-- How deep conditionals and loops are nested, as `nesting_depth` counts it. -/
def depth : Operation → Nat
  | ifElse _ thenBody elseBody =>
    1 + max (depthAll thenBody) (match elseBody with
      | some body => depthAll body
      | none => 0)
  | whileLoop _ body => 1 + depthAll body
  | forLoop _ _ body => 1 + depthAll body
  | _ => 0

def depthAll : List Operation → Nat
  | [] => 0
  | op :: rest => max (depth op) (depthAll rest)

end

end Operation

end CircuitCalls
