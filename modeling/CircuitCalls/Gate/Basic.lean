import CircuitCalls.Circuit.Error
import CircuitCalls.Gate.Standard

/-!
# Gates

A gate is a standard one, a custom one that is known by name only, or another gate with controls in
front of it. A control mask says for each control, least significant bit first, which value fires
the gate; without a mask every control has to be 1.
-/

namespace CircuitCalls

/-- A gate that is known by its name only. -/
structure CustomGate where
  name : String
  arity : UInt32
  parameters : List Parameter
deriving DecidableEq

/-- A gate; a label is a note that no rule looks at. -/
inductive Gate where
  | standard (gate : StandardGate) (label : Option String)
  | custom (gate : CustomGate) (label : Option String)
  | controlled (name : String) (controls : UInt32) (mask : Option UInt64) (base : Gate)
      (label : Option String)
deriving DecidableEq

/-- A mask has a bit for at most 64 controls and sets none past the last one (`check_ctrl_state`). -/
def checkMask (mask : UInt64) (controls : UInt32) : Except CircuitError Unit :=
  if 64 < controls then .error (.controlStateTooWide controls)
  else if 1 <<< controls.toNat ≤ mask.toNat then .error (.invalidControlState mask controls)
  else .ok ()

namespace Gate

def fixed (g : FixedGate) : Gate := .standard (.fixed g) none

def rotation (g : Rotation) (angle : Parameter) : Gate := .standard (.rotation g angle) none

def name : Gate → String
  | standard g _ => g.name
  | custom g _ => g.name
  | controlled name _ _ _ _ => name

/-- The number of qubits, controls included (`num_qubits`). The sum is exact: in words of 32 bits a sum past the
largest one has no fixed result, and no circuit has operands for such a gate. -/
def arity : Gate → Nat
  | standard g _ => g.arity
  | custom g _ => g.arity.toNat
  | controlled _ controls _ base _ => controls.toNat + base.arity

/-- The parameters in order; those of a controlled gate are its base's (`params`). -/
def parameters : Gate → List Parameter
  | standard g _ => g.parameters
  | custom g _ => g.parameters
  | controlled _ _ _ base _ => base.parameters

def withLabel (label : String) : Gate → Gate
  | standard g _ => standard g (some label)
  | custom g _ => custom g (some label)
  | controlled name controls mask base _ => controlled name controls mask base (some label)

/-- A controlled gate under another name and without a label (`with_name`); any other gate as it is. -/
def rename (name : String) : Gate → Gate
  | controlled _ controls mask base _ => controlled name controls mask base none
  | g => g

/-- The name of a gate with controls in front: `cx`, `c3x`. -/
def controlledName (controls : UInt32) (base : String) : String :=
  if controls = 1 then "c" ++ base else "c" ++ toString controls.toNat ++ base

/-- The gate with `controls` more controls in front (`control`). -/
def control (g : Gate) (controls : UInt32) (mask : Option UInt64) : Except CircuitError Gate := do
  if let some mask := mask then
    checkMask mask controls
  return .controlled (controlledName controls g.name) controls mask g none

/-- Checks the masks from the outermost control inward (`check_ctrl_states`). -/
def checkMasks : Gate → Except CircuitError Unit
  | controlled _ controls (some mask) base _ => do
    checkMask mask controls
    base.checkMasks
  | controlled _ _ none base _ => base.checkMasks
  | _ => .ok ()

end Gate

end CircuitCalls
