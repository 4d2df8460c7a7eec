import CircuitCalls.Gate.Basic
import CircuitCalls.Qasm.Error

/-!
# Gates by name

The gates that a source may call without defining them. Some have several names, and case does not
matter.
-/

namespace CircuitCalls.Qasm

/-- A standard gate without its parameters. -/
inductive GateForm where
  | fixed (gate : FixedGate)
  | rotation (gate : Rotation)
  /-- A `u` gate whose first angle is a quarter turn. -/
  | u2
  | u3
deriving DecidableEq

/-- The common name of a gate, in place of another one. -/
def commonName (name : String) : String :=
  match name with
  | "i" => "id"
  | "cnot" => "cx"
  | "toffoli" => "ccx"
  | "fredkin" => "cswap"
  | "phase" => "p"
  | "u1" => "p"
  | "cphase" => "cp"
  | "u3" => "u"
  | _ => name

namespace GateForm

def ofName? (name : String) : Option GateForm :=
  let name := commonName name
  match FixedGate.ofName? name, Rotation.ofName? name with
  | some g, _ => some (fixed g)
  | none, some g => some (rotation g)
  | none, none => if name = "u" then some u3 else if name = "u2" then some u2 else none

def parameterCount : GateForm → Nat
  | fixed _ => 0
  | rotation _ => 1
  | u2 => 2
  | u3 => 3

/-- The gate with its parameters, if there are as many as it takes (`check_param_count`). -/
def gate? : GateForm → List Parameter → Option StandardGate
  | fixed g, [] => some (.fixed g)
  | rotation g, [angle] => some (.rotation g angle)
  | u2, [phi, lambda] => some (.u (.binary .div .pi (.constant 2)) phi lambda)
  | u3, [theta, phi, lambda] => some (.u theta phi lambda)
  | _, _ => none

end GateForm

/-- The standard gate of a name in lower case, or none if there is no such gate (`standard_gate`). -/
def standardGate (name : String) (parameters : List Parameter) : Except Error (Option StandardGate) :=
  match GateForm.ofName? name with
  | none => .ok none
  | some form =>
    match form.gate? parameters with
    | some g => .ok (some g)
    | none => .error (.parameterCount name form.parameterCount parameters.length)

end CircuitCalls.Qasm
