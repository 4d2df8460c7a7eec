import CircuitCalls.Operation.Basic
import CircuitCalls.Gate.Json

/-!
# Operations in JSON

An operation is a record tagged by its field `op`. Conditions, iterations and directives are records
and alternatives inside it, and so are the operations of its bodies: these are read loosely.
-/

namespace CircuitCalls

def Bit.toJson {kind : BitKind} (b : Bit kind) : Json :=
  .obj [("register", .str b.register), ("index", .nat b.index.toNat)]

def Bit.ofJson? {kind : BitKind} (j : Json) : Option (Bit kind) :=
  match j.fields? ["register", "index"] with
  | some [some register, some index] => do
    let register ← register.asString?
    let index ← index.asUInt32?
    some ⟨register, index⟩
  | _ => none

def ConditionTarget.toJson : ConditionTarget → Json
  | bit clbit => .obj [("bit", clbit.toJson)]
  | register name => .obj [("register", .str name)]

def ConditionTarget.ofJson? (j : Json) : Option ConditionTarget :=
  match j.variant? with
  | some (tag, some content) =>
    if tag = "bit" then (Bit.ofJson? content).map bit
    else if tag = "register" then content.asString?.map register
    else none
  | _ => none

def Condition.toJson (c : Condition) : Json :=
  .obj [("target", c.target.toJson), ("value", .nat c.value.toNat)]

def Condition.ofJson? (j : Json) : Option Condition :=
  match j.fields? ["target", "value"] with
  | some [some target, some value] => do
    let target ← ConditionTarget.ofJson? target
    let value ← value.asUInt64?
    some ⟨target, value⟩
  | _ => none

def Iteration.toJson : Iteration → Json
  | range start stop step =>
    .obj [("range", .obj [("start", .int start.toInt), ("stop", .int stop.toInt),
      ("step", .int step.toInt)])]
  | values vs => .obj [("values", .ofList (fun v : Int64 => .int v.toInt) vs)]
  | count n => .obj [("count", .nat n.toNat)]

def Iteration.ofJson? (j : Json) : Option Iteration :=
  match j.variant? with
  | some (tag, some content) =>
    if tag = "range" then
      match content.fields? ["start", "stop", "step"] with
      | some [some start, some stop, some step] => do
        let start ← start.asInt64?
        let stop ← stop.asInt64?
        let step ← step.asInt64?
        some (range start stop step)
      | _ => none
    else if tag = "values" then (content.asList? Json.asInt64?).map values
    else if tag = "count" then content.asUInt64?.map count
    else none
  | _ => none

def Directive.toJson : Directive → Json
  | reset => .str "reset"
  | barrier => .str "barrier"
  | delay duration => .obj [("delay", .obj [("duration", .nat duration.toNat)])]

/-- The directive of a JSON form. It always stands in an operation. -/
def Directive.ofJson? (j : Json) : Option Directive :=
  match j.bareVariant? .loose with
  | some tag => if tag = "reset" then some reset else if tag = "barrier" then some barrier else none
  | none =>
    match j.variant? with
    | some (tag, some content) =>
      if tag = "delay" then
        match content.fields? ["duration"] with
        | some [some duration] => duration.asUInt64?.map delay
        | _ => none
      else none
    | _ => none

namespace Operation

mutual

def toJson : Operation → Json
  | gate g qubits =>
    .obj [("op", .str "gate"), ("gate", g.toJson), ("qubits", .ofList Bit.toJson qubits)]
  | measure qubits clbits =>
    .obj [("op", .str "measure"), ("qubits", .ofList Bit.toJson qubits),
      ("clbits", .ofList Bit.toJson clbits)]
  | ifElse condition thenBody elseBody =>
    .obj ([("op", .str "if_else"), ("condition", condition.toJson),
      ("then_body", .arr (toJsons thenBody))] ++
      match elseBody with
      | some body => [("else_body", .arr (toJsons body))]
      | none => [])
  | whileLoop condition body =>
    .obj [("op", .str "while_loop"), ("condition", condition.toJson), ("body", .arr (toJsons body))]
  | forLoop iteration loopVar body =>
    .obj ([("op", .str "for_loop"), ("iteration", iteration.toJson)] ++
      Json.field? "variable" .str loopVar ++ [("body", .arr (toJsons body))])
  | directive d qubits =>
    .obj [("op", .str "directive"), ("kind", d.toJson), ("qubits", .ofList Bit.toJson qubits)]

def toJsons : List Operation → List Json
  | [] => []
  | op :: rest => toJson op :: toJsons rest

end

def tags : List String := ["gate", "measure", "if_else", "while_loop", "for_loop", "directive"]

/-- The operation of a JSON form that nests operations at most `depth` deep. -/
def ofJsonWithin? : Nat → Json.Strictness → Json → Option Operation
  | 0, _, _ => none
  | depth + 1, strictness, j => do
    let (tag, record) ← j.tagged? strictness "op" tags
    let body? := Json.asList? (ofJsonWithin? depth .loose)
    if tag = "gate" then
      match record.fields? ["gate", "qubits"] with
      | some [some g, some qubits] => do
        let g ← Gate.ofJson? .loose g
        let qubits ← qubits.asList? Bit.ofJson?
        some (.gate g qubits)
      | _ => none
    else if tag = "measure" then
      match record.fields? ["qubits", "clbits"] with
      | some [some qubits, some clbits] => do
        let qubits ← qubits.asList? Bit.ofJson?
        let clbits ← clbits.asList? Bit.ofJson?
        some (.measure qubits clbits)
      | _ => none
    else if tag = "if_else" then
      match record.fields? ["condition", "then_body", "else_body"] with
      | some [some condition, some thenBody, elseBody] => do
        let condition ← Condition.ofJson? condition
        let thenBody ← body? thenBody
        let elseBody ← Json.optional? body? elseBody
        some (.ifElse condition thenBody elseBody)
      | _ => none
    else if tag = "while_loop" then
      match record.fields? ["condition", "body"] with
      | some [some condition, some body] => do
        let condition ← Condition.ofJson? condition
        let body ← body? body
        some (.whileLoop condition body)
      | _ => none
    else if tag = "for_loop" then
      match record.fields? ["iteration", "variable", "body"] with
      | some [some iteration, loopVar, some body] => do
        let iteration ← Iteration.ofJson? iteration
        let loopVar ← Json.optional? Json.asString? loopVar
        let body ← body? body
        some (.forLoop iteration loopVar body)
      | _ => none
    else if tag = "directive" then
      match record.fields? ["kind", "qubits"] with
      | some [some kind, some qubits] => do
        let kind ← Directive.ofJson? kind
        let qubits ← qubits.asList? Bit.ofJson?
        some (.directive kind qubits)
      | _ => none
    else none

/-- The operation of a JSON form. A document is never nested deeper than its reader allows, so that
bound leaves out no operation. -/
def ofJson? (strictness : Json.Strictness) (j : Json) : Option Operation :=
  ofJsonWithin? (Json.maxDepth + 1) strictness j

end Operation

end CircuitCalls
