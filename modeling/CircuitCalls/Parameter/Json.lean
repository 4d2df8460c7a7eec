import CircuitCalls.Parameter.Basic
import CircuitCalls.Json.Record

/-!
# Parameters in JSON

A parameter is an alternative: `"Pi"`, a constant, a symbol, or an operator with its operands.
-/

namespace CircuitCalls

def Arithmetic.tag : Arithmetic → String
  | .add => "Add"
  | .sub => "Sub"
  | .mul => "Mul"
  | .div => "Div"

def Arithmetic.ofTag? (tag : String) : Option Arithmetic :=
  [Arithmetic.add, .sub, .mul, .div].find? (·.tag == tag)

namespace Parameter

def toJson : Parameter → Json
  | constant v => .obj [("Constant", .float v)]
  | symbol name => .obj [("Symbol", .str name)]
  | pi => .str "Pi"
  | neg e => .obj [("Neg", e.toJson)]
  | binary op a b => .obj [(op.tag, .arr [a.toJson, b.toJson])]

def ofJson? (strictness : Json.Strictness) : Json → Option Parameter
  | .str name => if name = "Pi" then some pi else none
  | .obj [(name, .arr [a, b])] => do
    let op ← Arithmetic.ofTag? name
    let a ← ofJson? strictness a
    let b ← ofJson? strictness b
    some (binary op a b)
  | .obj [(name, content)] =>
    if name = "Constant" then content.asFloat?.map constant
    else if name = "Symbol" then content.asString?.map symbol
    else if name = "Neg" then (ofJson? strictness content).map neg
    else if name = "Pi" ∧ content.isNothing strictness then some pi
    else none
  | _ => none

end Parameter

end CircuitCalls
