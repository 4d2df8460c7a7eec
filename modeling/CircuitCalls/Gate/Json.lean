import CircuitCalls.Gate.Basic
import CircuitCalls.Parameter.Json

/-!
# Gates in JSON

A gate is a record of its kind and its label. The kind is an alternative, and a standard gate is
again an alternative, named in its own spelling (`"SXdg"`, `"CRx"`).
-/

namespace CircuitCalls

def FixedGate.tag : FixedGate → String
  | id => "I"
  | x => "X"
  | y => "Y"
  | z => "Z"
  | h => "H"
  | s => "S"
  | sdg => "Sdg"
  | t => "T"
  | tdg => "Tdg"
  | sx => "SX"
  | sxdg => "SXdg"
  | cx => "CX"
  | cy => "CY"
  | cz => "CZ"
  | ch => "CH"
  | swap => "Swap"
  | iswap => "ISwap"
  | ccx => "CCX"
  | cswap => "CSwap"

def FixedGate.ofTag? (tag : String) : Option FixedGate := all.find? (·.tag == tag)

def Rotation.tag : Rotation → String
  | rx => "Rx"
  | ry => "Ry"
  | rz => "Rz"
  | p => "P"
  | crx => "CRx"
  | cry => "CRy"
  | crz => "CRz"
  | cp => "CP"
  | rxx => "RXX"
  | ryy => "RYY"
  | rzz => "RZZ"

def Rotation.ofTag? (tag : String) : Option Rotation := all.find? (·.tag == tag)

namespace StandardGate

def toJson : StandardGate → Json
  | fixed g => .str g.tag
  | rotation g angle => .obj [(g.tag, angle.toJson)]
  | u theta phi lambda => .obj [("U", .arr [theta.toJson, phi.toJson, lambda.toJson])]

def ofJson? (strictness : Json.Strictness) (j : Json) : Option StandardGate := do
  let (tag, content) ← j.variant?
  match FixedGate.ofTag? tag, Rotation.ofTag? tag, content with
  | some g, _, none => some (fixed g)
  | some g, _, some content => if content.isNothing strictness then some (fixed g) else none
  | none, some g, some angle => (Parameter.ofJson? strictness angle).map (rotation g)
  | none, none, some (.arr [theta, phi, lambda]) =>
    if tag = "U" then do
      let theta ← Parameter.ofJson? strictness theta
      let phi ← Parameter.ofJson? strictness phi
      let lambda ← Parameter.ofJson? strictness lambda
      some (u theta phi lambda)
    else none
  | _, _, _ => none

end StandardGate

def CustomGate.toJson (g : CustomGate) : Json :=
  .obj [("name", .str g.name), ("num_qubits", .nat g.arity.toNat),
    ("params", .ofList Parameter.toJson g.parameters)]

def CustomGate.ofJson? (strictness : Json.Strictness) (j : Json) : Option CustomGate :=
  match j.fields? ["name", "num_qubits", "params"] with
  | some [some name, some arity, parameters] => do
    let name ← name.asString?
    let arity ← arity.asUInt32?
    let parameters ← Json.withDefault? [] (Json.asList? (Parameter.ofJson? strictness)) parameters
    some ⟨name, arity, parameters⟩
  | _ => none

namespace Gate

def toJson : Gate → Json
  | standard g label => .obj (("kind", .obj [("Standard", g.toJson)]) :: Json.field? "label" .str label)
  | custom g label => .obj (("kind", .obj [("Custom", g.toJson)]) :: Json.field? "label" .str label)
  | controlled name controls mask base label =>
    let content := [("name", .str name), ("num_ctrl_qubits", .nat controls.toNat)] ++
      Json.field? "ctrl_state" (fun mask : UInt64 => .nat mask.toNat) mask ++
      [("base_gate", base.toJson)]
    .obj (("kind", .obj [("Controlled", .obj content)]) :: Json.field? "label" .str label)

/-- The gate of a JSON form nested at most `depth` controls deep. -/
def ofJsonWithin? (strictness : Json.Strictness) : Nat → Json → Option Gate
  | 0, _ => none
  | depth + 1, j =>
    match j.fields? ["kind", "label"] with
    | some [some kind, label] => do
      let label ← Json.optional? Json.asString? label
      let (tag, content) ← kind.variant?
      let content ← content
      if tag = "Standard" then (StandardGate.ofJson? strictness content).map (standard · label)
      else if tag = "Custom" then (CustomGate.ofJson? strictness content).map (custom · label)
      else if tag = "Controlled" then
        match content.fields? ["name", "num_ctrl_qubits", "ctrl_state", "base_gate"] with
        | some [some name, some controls, mask, some base] => do
          let name ← name.asString?
          let controls ← controls.asUInt32?
          let mask ← Json.optional? Json.asUInt64? mask
          let base ← ofJsonWithin? strictness depth base
          some (controlled name controls mask base label)
        | _ => none
      else none
    | _ => none

/-- The gate of a JSON form. A document is never nested deeper than its reader allows, so that bound
leaves out no gate. -/
def ofJson? (strictness : Json.Strictness) (j : Json) : Option Gate :=
  ofJsonWithin? strictness (Json.maxDepth + 1) j

end Gate

end CircuitCalls
