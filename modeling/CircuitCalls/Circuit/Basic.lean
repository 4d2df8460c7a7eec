import CircuitCalls.Operation.Basic

/-!
# Circuits

Registers in the order of their declaration, and the operations on them.
-/

namespace CircuitCalls

/-- A quantum circuit. -/
structure Circuit where
  name : String
  qregs : List (Register .quantum)
  cregs : List (Register .classical)
  operations : List Operation

namespace Circuit

def empty (name : String) : Circuit := ⟨name, [], [], []⟩

/-- A circuit with a register `q` of qubits and a register `c` of classical bits, each declared only if it has
bits (`with_size`). -/
def withSize (name : String) (qubits clbits : UInt32) : Circuit :=
  { name
    qregs := if qubits = 0 then [] else [⟨"q", qubits⟩]
    cregs := if clbits = 0 then [] else [⟨"c", clbits⟩]
    operations := [] }

def qreg? (c : Circuit) (name : String) : Option (Register .quantum) := findRegister? name c.qregs

def creg? (c : Circuit) (name : String) : Option (Register .classical) := findRegister? name c.cregs

/-- The number of declared qubits (`num_qubits`). -/
def qubitCount (c : Circuit) : Nat := c.qregs.foldl (fun count r => count + r.size.toNat) 0

def clbitCount (c : Circuit) : Nat := c.cregs.foldl (fun count r => count + r.size.toNat) 0

/-- The number of operations at any depth (`num_ops`). -/
def operationCount (c : Circuit) : Nat := Operation.countAll c.operations

/-- How deep conditionals and loops are nested (`nesting_depth`). -/
def depth (c : Circuit) : Nat := Operation.depthAll c.operations

/-- Whether a qubit belongs to a declared register (`contains_qubit`). -/
def hasQubit (c : Circuit) (q : Qubit) : Bool := c.qregs.any (·.contains q)

def hasClbit (c : Circuit) (b : Clbit) : Bool := c.cregs.any (·.contains b)

/-- Declares a quantum register under a name that no other quantum register has (`add_qreg`). -/
def addQreg (c : Circuit) (name : String) (size : UInt32) : Except CircuitError Circuit :=
  if (c.qreg? name).isSome then .error (.duplicateRegister name)
  else .ok { c with qregs := c.qregs ++ [⟨name, size⟩] }

/-- Declares a classical register under a name that no other classical register has (`add_creg`). -/
def addCreg (c : Circuit) (name : String) (size : UInt32) : Except CircuitError Circuit :=
  if (c.creg? name).isSome then .error (.duplicateRegister name)
  else .ok { c with cregs := c.cregs ++ [⟨name, size⟩] }

end Circuit

end CircuitCalls
