import CircuitCalls.Qasm.Elaboration
import CircuitCalls.Proofs.Validity

/-!
# Circuits of sources

Whatever a source stands for is a valid circuit. Its directives come from the directives of the
source, and no loop of it runs over a number of rounds.
-/

namespace CircuitCalls.Qasm

/-- Induction over statements (`P`) and lists of statements (`Q`). -/
theorem Statement.induction {P : Statement → Prop} {Q : List Statement → Prop}
    (includeFile : ∀ path, P (.includeFile path))
    (declare : ∀ kind name size, P (.declare kind name size))
    (gate : ∀ call, P (.gate call))
    (measure : ∀ qubits bits, P (.measure qubits bits))
    (reset : ∀ qubits, P (.reset qubits))
    (barrier : ∀ qubits, P (.barrier qubits))
    (delay : ∀ duration qubits, P (.delay duration qubits))
    (ifThen : ∀ test thenBody, Q thenBody → P (.ifElse test thenBody none))
    (ifElse : ∀ test thenBody elseBody, Q thenBody → Q elseBody →
      P (.ifElse test thenBody (some elseBody)))
    (whileLoop : ∀ test body, Q body → P (.whileLoop test body))
    (forLoop : ∀ loopVar domain body, Q body → P (.forLoop loopVar domain body))
    (nil : Q []) (cons : ∀ s rest, P s → Q rest → Q (s :: rest)) :
    (∀ s, P s) ∧ ∀ ss, Q ss := by
  let R : Option (List Statement) → Prop := fun e => ∀ body, e = some body → Q body
  have branches : ∀ test thenBody elseBody, Q thenBody → R elseBody →
      P (.ifElse test thenBody elseBody) := by
    intro test thenBody elseBody ht he
    cases elseBody with
    | none => exact ifThen test thenBody ht
    | some body => exact ifElse test thenBody body ht (he body rfl)
  have someBody : ∀ body, Q body → R (some body) := by
    intro body hb body' e
    cases e
    exact hb
  exact ⟨Statement.rec includeFile declare gate measure reset barrier delay branches whileLoop
      forLoop nil cons (fun _ e => by cases e) someBody,
    Statement.rec_1 includeFile declare gate measure reset barrier delay branches whileLoop
      forLoop nil cons (fun _ e => by cases e) someBody⟩

namespace Statement

mutual

/-- A statement and those inside it. -/
def nodes : Statement → List Statement
  | .ifElse test thenBody elseBody =>
    .ifElse test thenBody elseBody :: (nodesAll thenBody ++ match elseBody with
      | some body => nodesAll body
      | none => [])
  | .whileLoop test body => .whileLoop test body :: nodesAll body
  | .forLoop loopVar domain body => .forLoop loopVar domain body :: nodesAll body
  | s => [s]

def nodesAll : List Statement → List Statement
  | [] => []
  | s :: rest => nodes s ++ nodesAll rest

end

def isDirective : Statement → Bool
  | reset _ | barrier _ | delay _ _ => true
  | _ => false

end Statement

/-- The statements of a source at every depth. -/
def Script.nodes (s : Script) : List Statement := Statement.nodesAll s.statements

/-! ## Bits of operands -/

section Operands

variable {kind : BitKind} {registers : List (Register kind)}

theorem checkIndex_eq_ok_iff {r : Register kind} {i : UInt32} :
    checkIndex r i = .ok () ↔ i < r.size := by
  unfold checkIndex
  split <;> simp [*]

def Operand.bits (registers : List (Register kind)) (o : Operand) : Except Error (List (Bit kind)) :=
  match findRegister? o.register registers with
  | some r => o.selection.bits r
  | none => .error (.undeclaredRegister o.register)

theorem Operand.bits_of_find? {o : Operand} {r : Register kind}
    (hr : findRegister? o.register registers = some r) : o.bits registers = o.selection.bits r := by
  rw [bits, hr]

theorem operandBits_cons (o : Operand) (rest : List Operand) :
    operandBits registers (o :: rest) = (do
      let bits ← o.bits registers
      let more ← operandBits registers rest
      return bits ++ more) := by
  rw [operandBits, Operand.bits]
  cases findRegister? o.register registers <;> rfl

theorem operandBits_singleton (o : Operand) : operandBits registers [o] = o.bits registers := by
  rw [operandBits_cons, operandBits]
  cases o.bits registers <;> simp

end Operands

/-! ## Operations without directives -/

/-- A gate call leaves gates only. -/
theorem GateCall.eq_gate_of_mem_operations {call : GateCall} {qregs : List (Register .quantum)}
    {ops : List Operation} (h : call.operations qregs = .ok ops) {op : Operation} (hop : op ∈ ops) :
    ∃ g qubits, op = .gate g qubits := by
  rw [GateCall.operations] at h
  obtain ⟨qubits, -, h⟩ := bind_eq_ok_iff.1 h
  obtain ⟨parameters, -, h⟩ := bind_eq_ok_iff.1 h
  obtain ⟨base, -, h⟩ := bind_eq_ok_iff.1 h
  split at h
  · cases h
    obtain ⟨q, -, rfl⟩ := List.mem_map.1 hop
    exact ⟨base, [q], rfl⟩
  · obtain ⟨g, -, h⟩ := bind_eq_ok_iff.1 h
    split at h
    · cases h
      exact ⟨g, qubits, List.mem_singleton.1 hop⟩
    · cases h

theorem measureOperations_eq_ok {c : Circuit} {qubits bits : List Operand} {ops : List Operation}
    (h : measureOperations c qubits bits = .ok ops) : ∃ qs cs, ops = [.measure qs cs] := by
  rw [measureOperations] at h
  split at h
  · cases h
  · obtain ⟨qs, -, h⟩ := bind_eq_ok_iff.1 h
    obtain ⟨cs, -, h⟩ := bind_eq_ok_iff.1 h
    obtain ⟨op, hop, h⟩ := bind_eq_ok_iff.1 h
    cases h
    rw [Operation.measureInto] at hop
    split at hop
    · cases hop
      exact ⟨qs, cs, rfl⟩
    · cases hop

theorem liftCircuit_eq_ok_iff {α : Type} {x : Except CircuitError α} {a : α} :
    liftCircuit x = .ok a ↔ x = .ok a := by
  cases x <;> simp [liftCircuit]

theorem inclusiveRange_eq_ok {start finish step : Int64} {iteration : Iteration}
    (h : inclusiveRange start finish step = .ok iteration) :
    ∃ stop, iteration = .range start stop step := by
  rw [inclusiveRange] at h
  split at h
  · rename_i stop _
    rw [liftCircuit_eq_ok_iff, Iteration.ofRange] at h
    split at h <;> cases h
    exact ⟨stop, rfl⟩
  · cases h

/-- A loop of a source runs over a range or a list and never over a bare number of rounds. -/
theorem LoopDomain.iteration_ne_count {domain : LoopDomain} {iteration : Iteration}
    (h : domain.iteration = .ok iteration) (n : UInt64) : iteration ≠ .count n := by
  rintro rfl
  cases domain with
  | range start step finish =>
    obtain ⟨first, -, h⟩ := bind_eq_ok_iff.1 h
    obtain ⟨last, -, h⟩ := bind_eq_ok_iff.1 h
    cases step with
    | none =>
      obtain ⟨stop, hstop⟩ := inclusiveRange_eq_ok h
      cases hstop
    | some step =>
      obtain ⟨stride, -, h⟩ := bind_eq_ok_iff.1 h
      obtain ⟨stop, hstop⟩ := inclusiveRange_eq_ok h
      cases hstop
  | values items =>
    obtain ⟨bounds, -, h⟩ := bind_eq_ok_iff.1 h
    cases h

/-- Without directives in the statements there is nothing in the operations that the simulator does
not support. -/
theorem operations_supported_and_body (c : Circuit) :
    (∀ (s : Statement) (ops : List Operation), s.operations c = .ok ops →
      (∀ x ∈ s.nodes, x.isDirective = false) → ∀ op ∈ Operation.nodesAll ops, op.Supported) ∧
    ∀ (ss : List Statement) (ops : List Operation), bodyOperations c ss = .ok ops →
      (∀ x ∈ Statement.nodesAll ss, x.isDirective = false) →
      ∀ op ∈ Operation.nodesAll ops, op.Supported := by
  apply Statement.induction
  case includeFile =>
    intro path ops h _ op hop
    rw [Statement.operations] at h
    cases h
    cases hop
  case declare =>
    intro kind name size ops h
    rw [Statement.operations] at h
    cases h
  case gate =>
    intro call ops h _ op hop
    rw [Statement.operations] at h
    rw [Operation.nodesAll_eq_flatMap] at hop
    obtain ⟨o, ho, hop⟩ := List.mem_flatMap.1 hop
    obtain ⟨g, qubits, rfl⟩ := GateCall.eq_gate_of_mem_operations h ho
    rw [Operation.nodes, List.mem_singleton] at hop
    rw [hop]
    trivial
  case measure =>
    intro qubits bits ops h _ op hop
    rw [Statement.operations] at h
    obtain ⟨qs, cs, rfl⟩ := measureOperations_eq_ok h
    simp only [Operation.nodesAll, Operation.nodes, List.append_nil, List.mem_singleton] at hop
    rw [hop]
    trivial
  case reset =>
    intro qubits ops _ hfree
    exact absurd (hfree _ List.mem_cons_self) (by simp [Statement.isDirective])
  case barrier =>
    intro qubits ops _ hfree
    exact absurd (hfree _ List.mem_cons_self) (by simp [Statement.isDirective])
  case delay =>
    intro duration qubits ops _ hfree
    exact absurd (hfree _ List.mem_cons_self) (by simp [Statement.isDirective])
  case ifThen =>
    intro test thenBody ih ops h hfree op hop
    rw [Statement.operations] at h
    obtain ⟨condition, -, h⟩ := bind_eq_ok_iff.1 h
    obtain ⟨thenOps, hthen, h⟩ := bind_eq_ok_iff.1 h
    cases h
    simp only [Statement.nodes, List.forall_mem_cons, List.append_nil] at hfree
    simp only [Operation.nodesAll, Operation.nodes, List.append_nil, List.mem_cons] at hop
    rcases hop with rfl | hop
    · trivial
    · exact ih thenOps hthen hfree.2 op hop
  case ifElse =>
    intro test thenBody elseBody ihThen ihElse ops h hfree op hop
    rw [Statement.operations] at h
    obtain ⟨condition, -, h⟩ := bind_eq_ok_iff.1 h
    obtain ⟨thenOps, hthen, h⟩ := bind_eq_ok_iff.1 h
    obtain ⟨elseOps, helse, h⟩ := bind_eq_ok_iff.1 h
    cases h
    simp only [Statement.nodes, List.forall_mem_cons, List.forall_mem_append] at hfree
    simp only [Operation.nodesAll, Operation.nodes, List.append_nil, List.mem_cons,
      List.mem_append] at hop
    rcases hop with rfl | hop | hop
    · trivial
    · exact ihThen thenOps hthen hfree.2.1 op hop
    · exact ihElse elseOps helse hfree.2.2 op hop
  case whileLoop =>
    intro test body ih ops h hfree op hop
    rw [Statement.operations] at h
    obtain ⟨condition, -, h⟩ := bind_eq_ok_iff.1 h
    obtain ⟨inner, hinner, h⟩ := bind_eq_ok_iff.1 h
    cases h
    simp only [Statement.nodes, List.forall_mem_cons] at hfree
    simp only [Operation.nodesAll, Operation.nodes, List.append_nil, List.mem_cons] at hop
    rcases hop with rfl | hop
    · trivial
    · exact ih inner hinner hfree.2 op hop
  case forLoop =>
    intro loopVar domain body ih ops h hfree op hop
    rw [Statement.operations] at h
    obtain ⟨iteration, hiteration, h⟩ := bind_eq_ok_iff.1 h
    obtain ⟨inner, hinner, h⟩ := bind_eq_ok_iff.1 h
    cases h
    simp only [Statement.nodes, List.forall_mem_cons] at hfree
    simp only [Operation.nodesAll, Operation.nodes, List.append_nil, List.mem_cons] at hop
    rcases hop with rfl | hop
    · cases iteration with
      | range start stop step => trivial
      | values vs => trivial
      | count n => exact absurd rfl (LoopDomain.iteration_ne_count hiteration n)
    · exact ih inner hinner hfree.2 op hop
  case nil =>
    intro ops h _ op hop
    rw [bodyOperations] at h
    cases h
    cases hop
  case cons =>
    intro s rest ihHead ihRest ops h hfree op hop
    rw [bodyOperations] at h
    obtain ⟨head, hhead, h⟩ := bind_eq_ok_iff.1 h
    obtain ⟨tail, htail, h⟩ := bind_eq_ok_iff.1 h
    cases h
    rw [Statement.nodesAll, List.forall_mem_append] at hfree
    rw [Operation.nodesAll_eq_flatMap, List.flatMap_append, ← Operation.nodesAll_eq_flatMap,
      ← Operation.nodesAll_eq_flatMap, List.mem_append] at hop
    rcases hop with hop | hop
    · exact ihHead head hhead hfree.1 op hop
    · exact ihRest tail htail hfree.2 op hop

/-! ## Whole sources -/

namespace Statement

/-- A declaration adds a register under a name that none has. Other statements declare nothing. -/
theorem declareIn_eq_ok {s : Statement} {c c' : Circuit} (h : s.declareIn c = .ok c') :
    (∃ name size, s = .declare .quantum name size ∧ c.qreg? name = none ∧ c.creg? name = none ∧
      c' = { c with qregs := c.qregs ++ [⟨name, size⟩] }) ∨
    (∃ name size, s = .declare .classical name size ∧ c.qreg? name = none ∧ c.creg? name = none ∧
      c' = { c with cregs := c.cregs ++ [⟨name, size⟩] }) ∨
    (∀ kind name size, s ≠ .declare kind name size) ∧ c' = c := by
  cases s with
  | declare kind name size =>
    simp only [declareIn] at h
    split at h
    · cases h
    · rename_i hnew
      simp only [Bool.or_eq_true, not_or, Option.not_isSome_iff_eq_none] at hnew
      cases kind with
      | quantum =>
        rw [liftCircuit_eq_ok_iff, Circuit.addQreg, hnew.1] at h
        cases h
        exact .inl ⟨name, size, rfl, hnew.1, hnew.2, rfl⟩
      | classical =>
        rw [liftCircuit_eq_ok_iff, Circuit.addCreg, hnew.2] at h
        cases h
        exact .inr (.inl ⟨name, size, rfl, hnew.1, hnew.2, rfl⟩)
  | _ =>
    cases h
    exact .inr (.inr ⟨nofun, rfl⟩)

theorem operations_declareIn {s : Statement} {c c' : Circuit} (h : s.declareIn c = .ok c') :
    c'.operations = c.operations := by
  rcases declareIn_eq_ok h with ⟨_, _, -, -, -, rfl⟩ | ⟨_, _, -, -, -, rfl⟩ | ⟨-, rfl⟩ <;> rfl

/-- A statement adds its operations one after the other, or is a declaration and adds nothing. -/
theorem appendTo_eq_ok {s : Statement} {c c' : Circuit} (h : s.appendTo c = .ok c') :
    c' = c ∨ ∃ ops, s.operations c = .ok ops ∧ ops.foldlM Circuit.append c = .ok c' := by
  cases s with
  | declare kind name size =>
    cases h
    exact Or.inl rfl
  | _ =>
    obtain ⟨ops, hops, h⟩ := bind_eq_ok_iff.1 h
    exact Or.inr ⟨ops, hops, liftCircuit_eq_ok_iff.1 h⟩

theorem nodesAll_eq_flatMap (ss : List Statement) : nodesAll ss = ss.flatMap nodes := by
  induction ss with
  | nil => rfl
  | cons s rest ih => rw [nodesAll, List.flatMap_cons, ih]

end Statement

/-- Operations are added at the end. -/
theorem foldlM_append_eq_ok {ops : List Operation} {c c' : Circuit}
    (h : ops.foldlM Circuit.append c = .ok c') : c' = { c with operations := c.operations ++ ops } := by
  induction ops generalizing c with
  | nil =>
    cases h
    rw [List.append_nil]
  | cons op rest ih =>
    rw [List.foldlM_cons] at h
    obtain ⟨d, hd, h⟩ := bind_eq_ok_iff.1 h
    obtain ⟨-, rfl⟩ := Circuit.append_eq_ok_iff.1 hd
    rw [ih h, List.append_assoc, List.singleton_append]

namespace Script

theorem operations_foldlM_declareIn {ss : List Statement} {c c' : Circuit}
    (h : ss.foldlM Statement.declareIn c = .ok c') : c'.operations = c.operations :=
  foldlM_ok_invariant (P := fun d => d.operations = c.operations)
    (fun _ _ _ _ hd he => (Statement.operations_declareIn hd).trans he) h rfl

/-- Declarations leave a circuit without operations, and the statements add the rest. -/
theorem circuit_eq_ok {s : Script} {c : Circuit} (h : s.circuit = .ok c) :
    ∃ declared : Circuit, declared.operations = [] ∧
      s.statements.foldlM Statement.appendTo declared = .ok c := by
  obtain ⟨declared, hdeclared, h⟩ := bind_eq_ok_iff.1 h
  exact ⟨declared, operations_foldlM_declareIn hdeclared, h⟩

theorem validate_circuit {s : Script} {c : Circuit} (h : s.circuit = .ok c) :
    c.validate = .ok () := by
  obtain ⟨declared, hnone, h⟩ := circuit_eq_ok h
  have hdeclared : declared.validate = .ok () := by rw [Circuit.validate, hnone]; rfl
  refine foldlM_ok_invariant (P := fun d => d.validate = .ok ()) ?_ h hdeclared
  intro s _ d d' hd hv
  rcases Statement.appendTo_eq_ok hd with rfl | ⟨ops, -, hops⟩
  · exact hv
  · exact foldlM_ok_invariant (P := fun d => d.validate = .ok ())
      (fun op _ a a' ha => Circuit.validate_append ha) hops hv

/-- A source without directives gives operations that the simulator has calls for. -/
theorem supported_circuit {s : Script} {c : Circuit} (h : s.circuit = .ok c)
    (hfree : ∀ x ∈ s.nodes, x.isDirective = false) : ∀ op ∈ c.nodes, op.Supported := by
  obtain ⟨declared, hnone, h⟩ := circuit_eq_ok h
  have hdeclared : ∀ op ∈ declared.nodes, op.Supported := by
    simp [Circuit.nodes, hnone, Operation.nodesAll]
  refine foldlM_ok_invariant (P := fun d => ∀ op ∈ d.nodes, op.Supported) ?_ h hdeclared
  intro st hst d d' hd hs
  rcases Statement.appendTo_eq_ok hd with rfl | ⟨ops, hlower, hops⟩
  · exact hs
  have hnodes : ∀ x ∈ st.nodes, x.isDirective = false := by
    intro x hx
    refine hfree x ?_
    rw [nodes, Statement.nodesAll_eq_flatMap]
    exact List.mem_flatMap.2 ⟨st, hst, hx⟩
  have hsupported := (operations_supported_and_body d).1 st ops hlower hnodes
  refine foldlM_ok_invariant (P := fun d => ∀ op ∈ d.nodes, op.Supported) ?_ hops hs
  intro op hop a a' ha hall
  obtain ⟨-, rfl⟩ := Circuit.append_eq_ok_iff.1 ha
  rw [Circuit.nodes_append, List.forall_mem_append]
  refine ⟨hall, fun o ho => hsupported o ?_⟩
  rw [Operation.nodesAll_eq_flatMap]
  exact List.mem_flatMap.2 ⟨op, hop, ho⟩

end Script

end CircuitCalls.Qasm
