import CircuitCalls.Parameter.Basic

/-!
# Standard gates

The gates with a known meaning come in three families: fixed gates, rotations by one angle, and the
general one-qubit gate `u` with three angles. Some of them are controlled forms of others (`cx` of
`x`, `ccx` of `x` twice): `controls` counts the implied controls and `root` is the gate below them.
-/

namespace CircuitCalls

inductive FixedGate where
  | id | x | y | z | h | s | sdg | t | tdg | sx | sxdg
  | cx | cy | cz | ch | swap | iswap
  | ccx | cswap
deriving DecidableEq, Repr

inductive Rotation where
  | rx | ry | rz | p
  | crx | cry | crz | cp | rxx | ryy | rzz
deriving DecidableEq, Repr

/-- A gate with a known meaning. -/
inductive StandardGate where
  | fixed (gate : FixedGate)
  | rotation (gate : Rotation) (angle : Parameter)
  | u (theta phi lambda : Parameter)
deriving DecidableEq

namespace FixedGate

def all : List FixedGate :=
  [id, x, y, z, h, s, sdg, t, tdg, sx, sxdg, cx, cy, cz, ch, swap, iswap, ccx, cswap]

def name : FixedGate → String
  | id => "id"
  | x => "x"
  | y => "y"
  | z => "z"
  | h => "h"
  | s => "s"
  | sdg => "sdg"
  | t => "t"
  | tdg => "tdg"
  | sx => "sx"
  | sxdg => "sxdg"
  | cx => "cx"
  | cy => "cy"
  | cz => "cz"
  | ch => "ch"
  | swap => "swap"
  | iswap => "iswap"
  | ccx => "ccx"
  | cswap => "cswap"

def ofName? (name : String) : Option FixedGate := all.find? (·.name == name)

/-- The gate below the implied controls (`wrapped`). -/
def root : FixedGate → FixedGate
  | cx => x
  | cy => y
  | cz => z
  | ch => h
  | ccx => x
  | cswap => swap
  | g => g

/-- The number of implied controls. -/
def controls : FixedGate → Nat
  | cx | cy | cz | ch | cswap => 1
  | ccx => 2
  | _ => 0

def arity (g : FixedGate) : Nat :=
  match g.root with
  | swap | iswap => g.controls + 2
  | _ => g.controls + 1

end FixedGate

namespace Rotation

def all : List Rotation := [rx, ry, rz, p, crx, cry, crz, cp, rxx, ryy, rzz]

def name : Rotation → String
  | rx => "rx"
  | ry => "ry"
  | rz => "rz"
  | p => "p"
  | crx => "crx"
  | cry => "cry"
  | crz => "crz"
  | cp => "cp"
  | rxx => "rxx"
  | ryy => "ryy"
  | rzz => "rzz"

def ofName? (name : String) : Option Rotation := all.find? (·.name == name)

def root : Rotation → Rotation
  | crx => rx
  | cry => ry
  | crz => rz
  | cp => p
  | g => g

def controls : Rotation → Nat
  | crx | cry | crz | cp => 1
  | _ => 0

def arity (g : Rotation) : Nat :=
  match g.root with
  | rxx | ryy | rzz => g.controls + 2
  | _ => g.controls + 1

end Rotation

namespace StandardGate

def name : StandardGate → String
  | fixed g => g.name
  | rotation g _ => g.name
  | u _ _ _ => "u"

def arity : StandardGate → Nat
  | fixed g => g.arity
  | rotation g _ => g.arity
  | u _ _ _ => 1

def parameters : StandardGate → List Parameter
  | fixed _ => []
  | rotation _ angle => [angle]
  | u theta phi lambda => [theta, phi, lambda]

def root : StandardGate → StandardGate
  | fixed g => fixed g.root
  | rotation g angle => rotation g.root angle
  | u theta phi lambda => u theta phi lambda

def controls : StandardGate → Nat
  | fixed g => g.controls
  | rotation g _ => g.controls
  | u _ _ _ => 0

/-- Whether a parameter holds a symbol (`is_parameterized`). -/
def isParameterized (g : StandardGate) : Bool := g.parameters.any Parameter.isSymbolic

/-- The number of qubits of the gate of this name, if it is a gate without implied controls (`base_arity`). -/
def rootArity? (name : String) : Option Nat :=
  match FixedGate.ofName? name, Rotation.ofName? name with
  | some g, _ => if g.controls = 0 then some g.arity else none
  | none, some g => if g.controls = 0 then some g.arity else none
  | none, none => if name = "u" then some 1 else none

end StandardGate

end CircuitCalls
