import CircuitCalls.Circuit.Validity
import CircuitCalls.Json.Writer
import CircuitCalls.Operation.Json

/-!
# Circuits in JSON

`Circuit.write` and `Circuit.read` turn circuits into JSON text and back. Reading also checks that
the circuit admits all its operations.
-/

namespace CircuitCalls

def Register.toJson {kind : BitKind} (r : Register kind) : Json :=
  .obj [("name", .str r.name), ("size", .nat r.size.toNat)]

def Register.ofJson? {kind : BitKind} (j : Json) : Option (Register kind) :=
  match j.fields? ["name", "size"] with
  | some [some name, some size] => do
    let name ← name.asString?
    let size ← size.asUInt32?
    some ⟨name, size⟩
  | _ => none

/-- Why a text is no circuit. -/
inductive ReadError where
  /-- The text is no JSON, or not of the shape of a circuit. -/
  | notACircuit
  | invalid (error : CircuitError)

namespace Circuit

def toJson (c : Circuit) : Json :=
  .obj [("name", .str c.name), ("qregs", .ofList Register.toJson c.qregs),
    ("cregs", .ofList Register.toJson c.cregs), ("operations", .arr (Operation.toJsons c.operations))]

/-- The circuit of a JSON form, whether or not it is valid. -/
def ofJson? (j : Json) : Option Circuit :=
  match j.fields? ["name", "qregs", "cregs", "operations"] with
  | some [some name, qregs, cregs, operations] => do
    let name ← name.asString?
    let qregs ← Json.withDefault? [] (Json.asList? Register.ofJson?) qregs
    let cregs ← Json.withDefault? [] (Json.asList? Register.ofJson?) cregs
    let operations ← Json.withDefault? [] (Json.asList? (Operation.ofJson? .strict)) operations
    some ⟨name, qregs, cregs, operations⟩
  | _ => none

/-- The circuit as JSON text. -/
def write (c : Circuit) : String := c.toJson.pretty

/-- The circuit of a JSON text, whether or not it is valid. -/
def readUnchecked? (text : String) : Option Circuit := do
  let j ← Json.parse? text
  ofJson? j

/-- The circuit of a JSON text, which is then validated (`from_json`). -/
def read (text : String) : Except ReadError Circuit :=
  match readUnchecked? text with
  | none => .error .notACircuit
  | some c =>
    match c.validate with
    | .ok () => .ok c
    | .error e => .error (.invalid e)

end Circuit

end CircuitCalls
