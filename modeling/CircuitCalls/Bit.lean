/-!
# Bits and registers

Qubits and classical bits are named alike, by the register they belong to and their place in it. The
kind is part of the type, so that the two are never mixed up.
-/

namespace CircuitCalls

/-- What a bit or a register holds. -/
inductive BitKind where
  | quantum
  | classical
deriving DecidableEq, Repr

/-- Place `index` of the register `register`. -/
structure Bit (kind : BitKind) where
  register : String
  index : UInt32
deriving DecidableEq, Repr

abbrev Qubit := Bit .quantum

abbrev Clbit := Bit .classical

/-- A named row of `size` bits. -/
structure Register (kind : BitKind) where
  name : String
  size : UInt32
deriving DecidableEq, Repr

/-- A bit as it is written: `q[0]`. -/
def Bit.text {kind : BitKind} (b : Bit kind) : String :=
  b.register ++ "[" ++ toString b.index.toNat ++ "]"

namespace Register

variable {kind : BitKind}

/-- The bit at a place of the register (`bit`); there is none past its end. -/
def bit? (r : Register kind) (index : UInt32) : Option (Bit kind) :=
  if index < r.size then some ⟨r.name, index⟩ else none

/-- The bits from place `first` to place `last`, both included. -/
def slice (r : Register kind) (first last : UInt32) : List (Bit kind) :=
  (List.range' first.toNat (last.toNat + 1 - first.toNat)).map fun i => ⟨r.name, UInt32.ofNat i⟩

def bits (r : Register kind) : List (Bit kind) :=
  (List.range r.size.toNat).map fun i => ⟨r.name, UInt32.ofNat i⟩

/-- Whether a bit belongs to the register. -/
def contains (r : Register kind) (b : Bit kind) : Bool := b.register == r.name && b.index < r.size

end Register

/-- The first register of a name (`qreg`, `creg`). -/
def findRegister? {kind : BitKind} (name : String) (registers : List (Register kind)) :
    Option (Register kind) :=
  registers.find? (·.name == name)

end CircuitCalls
