import CircuitCalls.Emission

/-!
# Operations at every depth

`Operation.induction` is induction over an operation together with the lists of operations inside it.
`Circuit.occurrences` lists every operation of a circuit in document order, with its path and with the
operations around it, the innermost first.
-/

namespace CircuitCalls

/-- Induction over operations (`P`) and lists of operations (`Q`). -/
theorem Operation.induction {P : Operation → Prop} {Q : List Operation → Prop}
    (gate : ∀ g qubits, P (.gate g qubits))
    (measure : ∀ qubits clbits, P (.measure qubits clbits))
    (ifThen : ∀ condition thenBody, Q thenBody → P (.ifElse condition thenBody none))
    (ifElse : ∀ condition thenBody elseBody, Q thenBody → Q elseBody →
      P (.ifElse condition thenBody (some elseBody)))
    (whileLoop : ∀ condition body, Q body → P (.whileLoop condition body))
    (forLoop : ∀ iteration loopVar body, Q body → P (.forLoop iteration loopVar body))
    (directive : ∀ d qubits, P (.directive d qubits))
    (nil : Q []) (cons : ∀ op rest, P op → Q rest → Q (op :: rest)) :
    (∀ op, P op) ∧ ∀ ops, Q ops := by
  -- The recursor has a third motive, for the optional list of an alternative.
  let R : Option (List Operation) → Prop := fun e => ∀ body, e = some body → Q body
  have branches : ∀ condition thenBody elseBody, Q thenBody → R elseBody →
      P (.ifElse condition thenBody elseBody) := by
    intro condition thenBody elseBody ht he
    cases elseBody with
    | none => exact ifThen condition thenBody ht
    | some body => exact ifElse condition thenBody body ht (he body rfl)
  have someBody : ∀ body, Q body → R (some body) := by
    intro body hb body' e
    cases e
    exact hb
  exact ⟨Operation.rec gate measure branches whileLoop forLoop directive nil cons
      (fun _ e => by cases e) someBody,
    Operation.rec_1 gate measure branches whileLoop forLoop directive nil cons
      (fun _ e => by cases e) someBody⟩

/-- An operation of a circuit: its path, and the operations that it is inside of, innermost first. -/
structure Occurrence where
  path : Path
  around : List Operation
  operation : Operation

namespace Operation

mutual

/-- An operation and those inside it, in document order. -/
def occurrences (path : Path) (around : List Operation) : Operation → List Occurrence
  | ifElse condition thenBody elseBody =>
    let inside := ifElse condition thenBody elseBody :: around
    ⟨path, around, ifElse condition thenBody elseBody⟩ ::
      (occurrencesAll path .thenBody 0 inside thenBody ++ match elseBody with
        | some body => occurrencesAll path .elseBody 0 inside body
        | none => [])
  | whileLoop condition body =>
    ⟨path, around, whileLoop condition body⟩ ::
      occurrencesAll path .loopBody 0 (whileLoop condition body :: around) body
  | forLoop iteration loopVar body =>
    ⟨path, around, forLoop iteration loopVar body⟩ ::
      occurrencesAll path .loopBody 0 (forLoop iteration loopVar body :: around) body
  | gate g qubits => [⟨path, around, gate g qubits⟩]
  | measure qubits clbits => [⟨path, around, measure qubits clbits⟩]
  | directive d qubits => [⟨path, around, directive d qubits⟩]

/-- The operations of a list and those inside them, the first of the list having the place `index`. -/
def occurrencesAll (path : Path) (branch : Branch) (index : Nat) (around : List Operation) :
    List Operation → List Occurrence
  | [] => []
  | op :: rest =>
    occurrences (path ++ [⟨branch, index⟩]) around op ++
      occurrencesAll path branch (index + 1) around rest

end

mutual

/-- An operation and those inside it, in document order and without their places. -/
def nodes : Operation → List Operation
  | ifElse condition thenBody elseBody =>
    ifElse condition thenBody elseBody :: (nodesAll thenBody ++ match elseBody with
      | some body => nodesAll body
      | none => [])
  | whileLoop condition body => whileLoop condition body :: nodesAll body
  | forLoop iteration loopVar body => forLoop iteration loopVar body :: nodesAll body
  | gate g qubits => [gate g qubits]
  | measure qubits clbits => [measure qubits clbits]
  | directive d qubits => [directive d qubits]

def nodesAll : List Operation → List Operation
  | [] => []
  | op :: rest => nodes op ++ nodesAll rest

end

theorem nodesAll_eq_flatMap (ops : List Operation) : nodesAll ops = ops.flatMap nodes := by
  induction ops with
  | nil => rfl
  | cons op rest ih => rw [nodesAll, List.flatMap_cons, ih]

/-- The simulator has no call for a directive, and a number of rounds has to fit a loop bound. -/
def Supported : Operation → Prop
  | directive _ _ => False
  | forLoop (.count n) _ _ => n.toNat < roundLimit
  | _ => True

/-- Occurrences are the nodes of the tree with their paths. -/
theorem map_operation_occurrences_and_all :
    (∀ op path around, (occurrences path around op).map (·.operation) = nodes op) ∧
    ∀ ops path branch index around,
      (occurrencesAll path branch index around ops).map (·.operation) = nodesAll ops := by
  apply Operation.induction
  case gate => intros; rfl
  case measure => intros; rfl
  case directive => intros; rfl
  case ifThen =>
    intro condition thenBody ih path around
    simp [occurrences, nodes, ih]
  case ifElse =>
    intro condition thenBody elseBody ihThen ihElse path around
    simp [occurrences, nodes, ihThen, ihElse]
  case whileLoop =>
    intro condition body ih path around
    simp [occurrences, nodes, ih]
  case forLoop =>
    intro iteration loopVar body ih path around
    simp [occurrences, nodes, ih]
  case nil => intros; rfl
  case cons =>
    intro op rest ihOp ihRest path branch index around
    simp [occurrencesAll, nodesAll, ihOp, ihRest]

end Operation

namespace Circuit

/-- All operations of a circuit in document order. -/
def occurrences (c : Circuit) : List Occurrence :=
  Operation.occurrencesAll [] .top 0 [] c.operations

def nodes (c : Circuit) : List Operation := Operation.nodesAll c.operations

theorem map_operation_occurrences (c : Circuit) : c.occurrences.map (·.operation) = c.nodes :=
  Operation.map_operation_occurrences_and_all.2 c.operations _ _ _ _

theorem operation_mem_nodes {c : Circuit} {o : Occurrence} (h : o ∈ c.occurrences) :
    o.operation ∈ c.nodes := by
  rw [← c.map_operation_occurrences]
  exact List.mem_map_of_mem h

end Circuit

end CircuitCalls
