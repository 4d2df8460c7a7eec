import CircuitCalls.Call.Basic
import CircuitCalls.Json.Record
import CircuitCalls.Json.Writer

/-!
# Programs in JSON

A call is an object with its depth, its name in the field `call`, and its contents beside them. The
name and all contents are read loosely, since they are parts of that object.
`Program.read? (Program.write p)` gives `p` back as long as all numbers are of machine size.
-/

namespace CircuitCalls

def Guard.toJson (g : Guard) : Json :=
  .obj [("clbits", .ofList .nat g.clbits), ("value", .nat g.value.toNat)]

def Guard.ofJson? (j : Json) : Option Guard :=
  match j.fields? ["clbits", "value"] with
  | some [some clbits, some value] => do
    let clbits ← clbits.asList? Json.asCount?
    let value ← value.asUInt64?
    some ⟨clbits, value⟩
  | _ => none

def LoopHeader.toJson : LoopHeader → Json
  | range v start stop step =>
    .obj [("kind", .str "range"), ("variable", .str v), ("start", .int start.toInt),
      ("stop", .int stop.toInt), ("step", .int step.toInt)]
  | values v items =>
    .obj [("kind", .str "values"), ("variable", .str v),
      ("values", .ofList (fun n : Int64 => .int n.toInt) items)]

/-- The loop header of a JSON form. It always stands in a call. -/
def LoopHeader.ofJson? (j : Json) : Option LoopHeader := do
  let (tag, record) ← j.tagged? .loose "kind" ["range", "values"]
  if tag = "range" then
    match record.fields? ["variable", "start", "stop", "step"] with
    | some [some v, some start, some stop, some step] => do
      let v ← v.asString?
      let start ← start.asInt64?
      let stop ← stop.asInt64?
      let step ← step.asInt64?
      some (range v start stop step)
    | _ => none
  else if tag = "values" then
    match record.fields? ["variable", "values"] with
    | some [some v, some items] => do
      let v ← v.asString?
      let items ← items.asList? Json.asInt64?
      some (values v items)
    | _ => none
  else none

namespace Call

def name : Call → String
  | setQubitCount _ => "set_num_qubits"
  | setClbitCount _ => "set_num_clbits"
  | gate _ _ => "gate"
  | measure _ _ => "measure"
  | beginIf _ => "if"
  | otherwise => "else"
  | beginWhile _ => "while"
  | beginFor _ => "for"
  | endBlock => "end"

/-- The names of calls, each at its place. -/
def names : List String :=
  ["set_num_qubits", "set_num_clbits", "gate", "measure", "if", "else", "while", "for", "end"]

/-- The fields that hold what the call is made with. -/
def contents : Call → List (String × Json)
  | setQubitCount count => [("count", .nat count)]
  | setClbitCount count => [("count", .nat count)]
  | gate roles arguments =>
    [("name", .str roles.root), ("params", .ofList .str arguments), ("targets", .ofList .nat roles.targets),
      ("positive_controls", .ofList .nat roles.positive), ("negative_controls", .ofList .nat roles.negative)]
  | measure qubits clbits => [("qubits", .ofList .nat qubits), ("clbits", .ofList .nat clbits)]
  | beginIf guard => [("condition", guard.toJson)]
  | otherwise => []
  | beginWhile guard => [("condition", guard.toJson)]
  | beginFor header => [("header", header.toJson)]
  | endBlock => []

def ofContents? (name : String) (contents : Json) : Option Call :=
  let only? (field : String) : Option Json :=
    match contents.fields? [field] with
    | some [some j] => some j
    | _ => none
  if name = "set_num_qubits" then do
    let count ← only? "count"
    count.asCount?.map setQubitCount
  else if name = "set_num_clbits" then do
    let count ← only? "count"
    count.asCount?.map setClbitCount
  else if name = "gate" then
    match contents.fields? ["name", "params", "targets", "positive_controls", "negative_controls"] with
    | some [some root, some arguments, some targets, some positive, some negative] => do
      let root ← root.asString?
      let arguments ← arguments.asList? Json.asString?
      let targets ← targets.asList? Json.asCount?
      let positive ← positive.asList? Json.asCount?
      let negative ← negative.asList? Json.asCount?
      some (gate ⟨root, targets, positive, negative⟩ arguments)
    | _ => none
  else if name = "measure" then
    match contents.fields? ["qubits", "clbits"] with
    | some [some qubits, some clbits] => do
      let qubits ← qubits.asList? Json.asCount?
      let clbits ← clbits.asList? Json.asCount?
      some (measure qubits clbits)
    | _ => none
  else if name = "if" then do
    let condition ← only? "condition"
    (Guard.ofJson? condition).map beginIf
  else if name = "else" then some otherwise
  else if name = "while" then do
    let condition ← only? "condition"
    (Guard.ofJson? condition).map beginWhile
  else if name = "for" then do
    let header ← only? "header"
    (LoopHeader.ofJson? header).map beginFor
  else if name = "end" then some endBlock
  else none

end Call

def Line.toJson (l : Line) : Json :=
  .obj ([("depth", .nat l.depth), ("call", .str l.call.name)] ++ l.call.contents)

/-- The line of a JSON form, which has to be an object. -/
def Line.ofJson? : Json → Option Line
  | .obj fields => do
    let some depth ← Json.lookup? "depth" fields | none
    let depth ← depth.asCount?
    let contents := Json.obj (fields.filter (·.1 != "depth"))
    let (name, contents) ← contents.tagged? .loose "call" Call.names
    let call ← Call.ofContents? name contents
    some ⟨depth, call⟩
  | _ => none

namespace Program

def toJson (p : Program) : Json := .obj [("calls", .ofList Line.toJson p.lines)]

def ofJson? (j : Json) : Option Program :=
  match j.fields? ["calls"] with
  | some [some calls] => (calls.asList? Line.ofJson?).map Program.mk
  | _ => none

/-- The program as JSON text (`to_json`). -/
def write (p : Program) : String := p.toJson.pretty

def read? (text : String) : Option Program := do
  let j ← Json.parse? text
  ofJson? j

end Program

end CircuitCalls
