import CircuitCalls.Proofs.Nesting
import CircuitCalls.Proofs.Registers
import CircuitCalls.Proofs.Shorthand

/-!
# No statement is lost

A statement that acts on bits becomes one operation, or one for each qubit if it calls a gate on one
qubit with more operands. `Becomes` says this of a list of statements and of those inside them. Counts,
depths and the absence of inner declarations follow by induction over it. Declarations at the top
level become the registers, wherever they stand.
-/

namespace CircuitCalls

namespace Operation

theorem countAll_append (ops more : List Operation) :
    countAll (ops ++ more) = countAll ops + countAll more := by
  induction ops with
  | nil => simp [countAll]
  | cons op rest ih => rw [List.cons_append, countAll, ih, countAll, Nat.add_assoc]

theorem depthAll_append (ops more : List Operation) :
    depthAll (ops ++ more) = max (depthAll ops) (depthAll more) := by
  induction ops with
  | nil => simp [depthAll]
  | cons op rest ih => rw [List.cons_append, depthAll, ih, depthAll, Nat.max_assoc]

theorem countAll_of_plain {ops : List Operation} (h : ∀ op ∈ ops, op.isControlFlow = false) :
    countAll ops = ops.length := by
  induction ops with
  | nil => rfl
  | cons op rest ih =>
    rw [List.forall_mem_cons] at h
    obtain ⟨hbody, hother⟩ := bodies_of_not_isControlFlow h.1
    rw [countAll, count_eq, hbody, hother, ih h.2, List.length_cons, countAll]
    omega

theorem depthAll_of_plain {ops : List Operation} (h : ∀ op ∈ ops, op.isControlFlow = false) :
    depthAll ops = 0 := by
  induction ops with
  | nil => rfl
  | cons op rest ih =>
    rw [List.forall_mem_cons] at h
    rw [depthAll, depth_of_not_isControlFlow h.1, ih h.2, Nat.max_self]

end Operation

namespace Qasm

/-! ## Gate calls -/

section Operands

variable {kind : BitKind} {registers : List (Register kind)}

/-- A selection has as many bits as it covers places. -/
theorem Selection.length_bits {r : Register kind} {selection : Selection} {bits : List (Bit kind)}
    (h : selection.bits r = .ok bits) : bits.length = (selection.places r.size).length := by
  cases selection with
  | all =>
    cases h
    simp [places, Register.length_bits]
  | index i =>
    obtain ⟨-, h⟩ := seq_eq_ok_iff.1 h
    cases h
    rfl
  | slice first last =>
    obtain ⟨-, h⟩ := seq_eq_ok_iff.1 h
    obtain ⟨-, h⟩ := seq_eq_ok_iff.1 h
    cases h
    simp [places, Register.slice]

/-- In full there is an operand for each bit. -/
theorem length_operandBits {operands : List Operand} {bits : List (Bit kind)}
    (h : operandBits registers operands = .ok bits) :
    bits.length = (operands.flatMap (Operand.inFull registers)).length := by
  induction operands generalizing bits with
  | nil =>
    cases h
    rfl
  | cons o rest ih =>
    rw [operandBits_cons] at h
    obtain ⟨first, hfirst, h⟩ := bind_eq_ok_iff.1 h
    obtain ⟨more, hmore, h⟩ := bind_eq_ok_iff.1 h
    cases h
    cases hr : findRegister? o.register registers with
    | none => simp [Operand.bits, hr] at hfirst
    | some r =>
      rw [Operand.bits_of_find? hr] at hfirst
      simp [Operand.inFull, hr, Selection.length_bits hfirst, ih hmore]

end Operands

namespace GateCall

def selected (call : GateCall) (qregs : List (Register .quantum)) : Nat :=
  (call.qubits.flatMap (Operand.inFull qregs)).length

/-- The number of operations of a call: an unmodified standard gate on one qubit counts once for each
of its bits. -/
def weight (call : GateCall) (qregs : List (Register .quantum)) : Nat :=
  if call.isSingle ∧ 2 ≤ call.selected qregs then call.selected qregs else 1

variable {call : GateCall}

/-- A custom gate has as many qubits as operands, so that only a standard one has fewer. -/
theorem isSingle_of_baseGate {parameters : List Parameter} {operands : Nat} {g : Gate}
    (hplain : call.modifiers = []) (h : call.baseGate parameters operands = .ok g)
    (harity : g.arity = 1) (hmany : 1 < operands) : call.isSingle = true := by
  have hcontrols : call.controls = 0 := by simp [controls, hplain]
  cases hform : GateForm.ofName? (lowercase call.name) with
  | none =>
    have hstandard : standardGate (lowercase call.name) parameters = .ok none := by
      simp only [standardGate, hform]
    obtain ⟨hlt, rfl⟩ := (baseGate_eq_ok_iff hstandard).1 h
    rw [Gate.arity, UInt32.toNat_ofNat_of_lt' (by omega)] at harity
    have hsize : UInt32.size = 4294967296 := rfl
    omega
  | some form =>
    cases hgate : form.gate? parameters with
    | none =>
      have herror : standardGate (lowercase call.name) parameters =
          .error (.parameterCount (lowercase call.name) form.parameterCount parameters.length) := by
        simp only [standardGate, hform, hgate]
      simp [baseGate, herror] at h
    | some s =>
      have hstandard : standardGate (lowercase call.name) parameters = .ok (some s) := by
        simp only [standardGate, hform, hgate]
      rw [baseGate_of_standard hstandard] at h
      cases h
      have hone : form.arity = 1 := (GateForm.arity_of_gate? hgate).symm.trans harity
      simp [isSingle, hplain, hform, hone]

/-- A gate call becomes as many operations as it weighs. -/
theorem length_operations {qregs : List (Register .quantum)} {ops : List Operation}
    (h : call.operations qregs = .ok ops) : ops.length = call.weight qregs := by
  obtain ⟨qubits, hqubits, h⟩ := bind_eq_ok_iff.1 h
  obtain ⟨parameters, -, h⟩ := bind_eq_ok_iff.1 h
  obtain ⟨base, hbase, h⟩ := bind_eq_ok_iff.1 h
  have hselected : call.selected qregs = qubits.length := (length_operandBits hqubits).symm
  rw [weight, hselected]
  split at h
  · rename_i hmany
    obtain ⟨hplain, harity, hlt⟩ := hmany
    cases h
    have hsingle := isSingle_of_baseGate (List.isEmpty_iff.1 hplain) hbase harity hlt
    rw [List.length_map, if_pos ⟨hsingle, hlt⟩]
  · rename_i hone
    obtain ⟨g, -, h⟩ := bind_eq_ok_iff.1 h
    split at h
    · cases h
      refine (if_neg ?_).symm
      rintro ⟨hsingle, hlt⟩
      obtain ⟨hsame, harity⟩ := baseGate_of_isSingle hsingle parameters qubits.length
      have hplain : call.modifiers.isEmpty = true := by
        simp only [isSingle, Bool.and_eq_true] at hsingle
        exact hsingle.1
      exact hone ⟨hplain, harity base (hsame ▸ hbase), hlt⟩
    · cases h

end GateCall

/-! ## Statements and their operations -/

namespace Statement

def isControlFlow : Statement → Bool
  | ifElse _ _ _ | whileLoop _ _ | forLoop _ _ _ => true
  | _ => false

/-- The statements in the bodies of a statement, not those further inside. -/
def inside : Statement → List Statement
  | ifElse _ thenBody elseBody => thenBody ++ elseBody.getD []
  | whileLoop _ body => body
  | forLoop _ _ body => body
  | _ => []

/-- The number of operations that a statement stands for, those inside it left out. -/
def weight (qregs : List (Register .quantum)) : Statement → Nat
  | includeFile _ => 0
  | declare _ _ _ => 0
  | gate call => call.weight qregs
  | _ => 1

/-- The number of operations that statements stand for, with those inside. -/
def tally (qregs : List (Register .quantum)) (ss : List Statement) : Nat :=
  (nodesAll ss).foldr (fun s count => s.weight qregs + count) 0

theorem nodesAll_append (ss ts : List Statement) : nodesAll (ss ++ ts) = nodesAll ss ++ nodesAll ts := by
  rw [nodesAll_eq_flatMap, nodesAll_eq_flatMap, nodesAll_eq_flatMap, List.flatMap_append]

theorem nodes_eq (s : Statement) : s.nodes = s :: nodesAll s.inside := by
  cases s with
  | ifElse test thenBody elseBody =>
    cases elseBody <;> simp [nodes, inside, nodesAll_append]
  | _ => simp [nodes, inside, nodesAll]

theorem isDeclaration_of_isControlFlow {s : Statement} (h : s.isControlFlow = true) :
    s.isDeclaration = false := by
  cases s <;> first | rfl | cases h

theorem inside_of_plain {s : Statement} (h : s.isControlFlow = false) : s.inside = [] := by
  cases s <;> first | rfl | cases h

variable {qregs : List (Register .quantum)}

theorem tally_append (ss ts : List Statement) : tally qregs (ss ++ ts) = tally qregs ss + tally qregs ts := by
  rw [tally, nodesAll_append, List.foldr_append, tally, tally]
  induction nodesAll ss with
  | nil => rw [List.foldr_nil, List.foldr_nil, Nat.zero_add]
  | cons s rest ih => rw [List.foldr_cons, List.foldr_cons, ih, Nat.add_assoc]

theorem tally_singleton (s : Statement) :
    tally qregs [s] = s.weight qregs + tally qregs s.inside := by
  rw [tally, nodesAll, nodesAll, List.append_nil, nodes_eq, List.foldr_cons, tally]

theorem tally_cons (s : Statement) (rest : List Statement) :
    tally qregs (s :: rest) = s.weight qregs + tally qregs s.inside + tally qregs rest := by
  rw [← List.singleton_append, tally_append, tally_singleton]

end Statement

/-- Some `n` conditionals and loops stand one inside the other. -/
inductive Nested : List Statement → Nat → Prop where
  | flat (ss : List Statement) : Nested ss 0
  | block {ss : List Statement} {s : Statement} {n : Nat} : s ∈ ss → s.isControlFlow = true →
      Nested s.inside n → Nested ss (n + 1)

theorem nested_succ_iff {ss : List Statement} {n : Nat} :
    Nested ss (n + 1) ↔ ∃ s ∈ ss, s.isControlFlow = true ∧ Nested s.inside n := by
  constructor
  · intro h
    cases h with
    | block hs hflow hn => exact ⟨_, hs, hflow, hn⟩
  · rintro ⟨s, hs, hflow, hn⟩
    exact .block hs hflow hn

/-- The operations that statements become. What is inside a conditional or a loop stays inside it, and
no statement in the list or inside it is a declaration. -/
inductive Becomes (qregs : List (Register .quantum)) : List Statement → List Operation → Prop where
  | nil : Becomes qregs [] []
  | plain {s : Statement} {rest : List Statement} {ops more : List Operation} :
      s.isControlFlow = false → s.isDeclaration = false → (∀ op ∈ ops, op.isControlFlow = false) →
      ops.length = s.weight qregs → Becomes qregs rest more → Becomes qregs (s :: rest) (ops ++ more)
  | block {s : Statement} {op : Operation} {rest : List Statement} {more : List Operation} :
      s.isControlFlow = true → op.isControlFlow = true →
      Becomes qregs s.inside (op.body ++ op.otherBody) → Becomes qregs rest more →
      Becomes qregs (s :: rest) (op :: more)

namespace Becomes

variable {qregs : List (Register .quantum)} {ss ts : List Statement} {ops more : List Operation}

theorem append (h : Becomes qregs ss ops) (h' : Becomes qregs ts more) :
    Becomes qregs (ss ++ ts) (ops ++ more) := by
  induction h with
  | nil => exact h'
  | plain hflow hdeclare hplain hlength _ ih =>
    rw [List.cons_append, List.append_assoc]
    exact .plain hflow hdeclare hplain hlength ih
  | block hflow hflow' hinside _ _ ih => exact .block hflow hflow' hinside ih

/-- A statement without others inside. -/
theorem single {s : Statement} {op : Operation} (hflow : s.isControlFlow = false)
    (hdeclare : s.isDeclaration = false) (hplain : op.isControlFlow = false)
    (hweight : s.weight qregs = 1) : Becomes qregs [s] [op] := by
  rw [← List.append_nil [op]]
  exact .plain hflow hdeclare (by simpa using hplain) hweight.symm .nil

theorem countAll_eq (h : Becomes qregs ss ops) : Operation.countAll ops = Statement.tally qregs ss := by
  induction h with
  | nil => rfl
  | @plain s rest ops more hflow _ hplain hlength _ ih =>
    rw [Operation.countAll_append, Operation.countAll_of_plain hplain, ih, hlength,
      Statement.tally_cons, Statement.inside_of_plain hflow]
    rfl
  | @block s op rest more hflow hflow' _ _ ihInside ih =>
    have hweight : s.weight qregs = 1 := by cases s <;> first | rfl | cases hflow
    rw [Operation.countAll_append] at ihInside
    rw [Operation.countAll, Operation.count_eq, ih, Statement.tally_cons, hweight, ← ihInside]
    omega

/-- Conditionals and loops of the statements are nested as deep as those of the operations. -/
theorem nested_iff (h : Becomes qregs ss ops) (n : Nat) : Nested ss n ↔ n ≤ Operation.depthAll ops := by
  induction h generalizing n with
  | nil =>
    cases n with
    | zero => exact iff_of_true (.flat []) (Nat.le_refl 0)
    | succ n => simp [nested_succ_iff, Operation.depthAll]
  | @plain s rest ops more hflow _ hplain _ _ ih =>
    rw [Operation.depthAll_append, Operation.depthAll_of_plain hplain, Nat.zero_max, ← ih]
    cases n with
    | zero => exact iff_of_true (.flat _) (.flat _)
    | succ n => simp [nested_succ_iff, hflow]
  | @block s op rest more hflow hflow' _ _ ihInside ih =>
    rw [Operation.depthAll, Operation.depth_of_isControlFlow hflow', ← Operation.depthAll_append]
    cases n with
    | zero => exact iff_of_true (.flat _) (Nat.zero_le _)
    | succ n =>
      -- Blocks to this depth start with `s`, and are then one fewer inside it, or are all in `rest`.
      have hrest : Nested rest (n + 1) ↔ n + 1 ≤ Operation.depthAll more := ih (n + 1)
      rw [nested_succ_iff, List.exists_mem_cons_iff, ← nested_succ_iff, hrest, ihInside]
      simp only [hflow, true_and]
      omega

theorem isDeclaration_eq_false (h : Becomes qregs ss ops) :
    ∀ x ∈ Statement.nodesAll ss, x.isDeclaration = false := by
  induction h with
  | nil => simp [Statement.nodesAll]
  | plain hflow hdeclare _ _ _ ih =>
    rw [Statement.nodesAll, Statement.nodes_eq, Statement.inside_of_plain hflow]
    simpa [Statement.nodesAll, hdeclare] using ih
  | @block s op rest more hflow _ _ _ ihInside ih =>
    rw [Statement.nodesAll, Statement.nodes_eq, List.cons_append, List.forall_mem_cons,
      List.forall_mem_append]
    exact ⟨Statement.isDeclaration_of_isControlFlow hflow, ihInside, ih⟩

end Becomes

/-- Whatever the operations of statements are, the statements become them. -/
theorem becomes_operations_and_body (c : Circuit) :
    (∀ (s : Statement) (ops : List Operation), s.operations c = .ok ops → Becomes c.qregs [s] ops) ∧
    ∀ (ss : List Statement) (ops : List Operation), bodyOperations c ss = .ok ops →
      Becomes c.qregs ss ops := by
  apply Statement.induction
  case includeFile =>
    intro path ops h
    rw [Statement.operations] at h
    cases h
    show Becomes c.qregs [.includeFile path] ([] ++ [])
    exact .plain rfl rfl (by simp) rfl .nil
  case declare =>
    -- A declaration in a body is an error, so that there is nothing to become.
    intro kind name size ops h
    rw [Statement.operations] at h
    cases h
  case gate =>
    intro call ops h
    rw [Statement.operations] at h
    have hplain : ∀ op ∈ ops, op.isControlFlow = false := by
      intro op hop
      obtain ⟨g, qubits, rfl⟩ := GateCall.eq_gate_of_mem_operations h hop
      rfl
    rw [← List.append_nil ops]
    exact .plain rfl rfl hplain (GateCall.length_operations h) .nil
  case measure =>
    intro qubits bits ops h
    rw [Statement.operations] at h
    obtain ⟨qs, cs, rfl⟩ := measureOperations_eq_ok h
    exact .single rfl rfl rfl rfl
  case reset =>
    intro qubits ops h
    rw [Statement.operations] at h
    obtain ⟨qs, -, h⟩ := bind_eq_ok_iff.1 h
    cases h
    exact .single rfl rfl rfl rfl
  case barrier =>
    intro qubits ops h
    cases qubits with
    | nil =>
      rw [Statement.operations] at h
      cases h
      exact .single rfl rfl rfl rfl
    | cons o rest =>
      rw [Statement.operations] at h
      · obtain ⟨qs, -, h⟩ := bind_eq_ok_iff.1 h
        cases h
        exact .single rfl rfl rfl rfl
      · simp
  case delay =>
    intro duration qubits ops h
    rw [Statement.operations] at h
    obtain ⟨d, -, h⟩ := bind_eq_ok_iff.1 h
    obtain ⟨qs, -, h⟩ := bind_eq_ok_iff.1 h
    cases h
    exact .single rfl rfl rfl rfl
  case ifThen =>
    intro test thenBody ih ops h
    rw [Statement.operations] at h
    obtain ⟨condition, -, h⟩ := bind_eq_ok_iff.1 h
    obtain ⟨thenOps, hthen, h⟩ := bind_eq_ok_iff.1 h
    cases h
    exact .block rfl rfl ((ih thenOps hthen).append .nil) .nil
  case ifElse =>
    intro test thenBody elseBody ihThen ihElse ops h
    rw [Statement.operations] at h
    obtain ⟨condition, -, h⟩ := bind_eq_ok_iff.1 h
    obtain ⟨thenOps, hthen, h⟩ := bind_eq_ok_iff.1 h
    obtain ⟨elseOps, helse, h⟩ := bind_eq_ok_iff.1 h
    cases h
    exact .block rfl rfl ((ihThen thenOps hthen).append (ihElse elseOps helse)) .nil
  case whileLoop =>
    intro test body ih ops h
    rw [Statement.operations] at h
    obtain ⟨condition, -, h⟩ := bind_eq_ok_iff.1 h
    obtain ⟨inner, hinner, h⟩ := bind_eq_ok_iff.1 h
    cases h
    exact .block rfl rfl ((List.append_nil inner).symm ▸ ih inner hinner) .nil
  case forLoop =>
    intro loopVar domain body ih ops h
    rw [Statement.operations] at h
    obtain ⟨iteration, -, h⟩ := bind_eq_ok_iff.1 h
    obtain ⟨inner, hinner, h⟩ := bind_eq_ok_iff.1 h
    cases h
    exact .block rfl rfl ((List.append_nil inner).symm ▸ ih inner hinner) .nil
  case nil =>
    intro ops h
    rw [bodyOperations] at h
    cases h
    exact .nil
  case cons =>
    intro s rest ihHead ihRest ops h
    rw [bodyOperations] at h
    obtain ⟨head, hhead, h⟩ := bind_eq_ok_iff.1 h
    obtain ⟨tail, htail, h⟩ := bind_eq_ok_iff.1 h
    cases h
    exact (ihHead head hhead).append (ihRest tail htail)

/-! ## Whole sources -/

/-- Statements without declarations become the operations that are added. -/
theorem becomes_foldlM_appendTo {ss : List Statement} {c c' : Circuit}
    (hss : ∀ s ∈ ss, s.isDeclaration = false) (h : ss.foldlM Statement.appendTo c = .ok c') :
    ∃ ops, c'.operations = c.operations ++ ops ∧ Becomes c.qregs ss ops := by
  induction ss generalizing c with
  | nil =>
    cases h
    exact ⟨[], (List.append_nil _).symm, .nil⟩
  | cons s rest ih =>
    rw [List.forall_mem_cons] at hss
    rw [List.foldlM_cons, Statement.appendTo_of_not hss.1] at h
    obtain ⟨d, hd, h⟩ := bind_eq_ok_iff.1 h
    obtain ⟨ops, hops, hd⟩ := bind_eq_ok_iff.1 hd
    cases foldlM_append_eq_ok (liftCircuit_eq_ok_iff.1 hd)
    obtain ⟨more, hmore, hbecomes⟩ := ih hss.2 h
    refine ⟨ops ++ more, by rw [hmore, List.append_assoc], ?_⟩
    exact ((becomes_operations_and_body c).1 s ops hops).append hbecomes

/-- Registers of either kind have names that differ. -/
def NamesDiffer (c : Circuit) : Prop := (c.qregs.map (·.name) ++ c.cregs.map (·.name)).Nodup

theorem NamesDiffer.declareIn {s : Statement} {c c' : Circuit} (h : s.declareIn c = .ok c')
    (hc : NamesDiffer c) : NamesDiffer c' := by
  have hcons {name : String} (hq : c.qreg? name = none) (hb : c.creg? name = none) :
      (name :: (c.qregs.map (·.name) ++ c.cregs.map (·.name))).Nodup := by
    rw [List.nodup_cons, List.mem_append, not_or]
    exact ⟨⟨findRegister?_eq_none_iff.1 hq, findRegister?_eq_none_iff.1 hb⟩, hc⟩
  rcases Statement.declareIn_eq_ok h with ⟨_, _, -, hq, hb, rfl⟩ | ⟨_, _, -, hq, hb, rfl⟩ | ⟨-, rfl⟩
  · simpa [NamesDiffer, List.nodup_middle] using hcons hq hb
  · simpa [NamesDiffer, ← List.append_assoc, List.nodup_middle] using hcons hq hb
  · exact hc

namespace Script

/-- The statements at the top level that declare a register. -/
def declarations (s : Script) : List Statement := s.statements.filter Statement.isDeclaration

def actions (s : Script) : List Statement := s.statements.filter fun st => !st.isDeclaration

theorem mem_actions {s : Script} {st : Statement} :
    st ∈ s.actions ↔ st ∈ s.statements ∧ st.isDeclaration = false := by
  simp [actions]

theorem foldlM_declareIn_declarations (s : Script) (c : Circuit) :
    s.declarations.foldlM Statement.declareIn c = s.statements.foldlM Statement.declareIn c := by
  have hskip : (fun c (st : Statement) =>
      if st.isDeclaration = true then st.declareIn c else pure c) = Statement.declareIn := by
    funext c st
    cases hst : st.isDeclaration with
    | true => rfl
    | false => exact (Statement.declareIn_of_not hst c).symm
  rw [declarations, List.foldlM_filter, hskip]

theorem foldlM_appendTo_actions (s : Script) (c : Circuit) :
    s.actions.foldlM Statement.appendTo c = s.statements.foldlM Statement.appendTo c := by
  have hskip : (fun c (st : Statement) =>
      if (!st.isDeclaration) = true then st.appendTo c else pure c) = Statement.appendTo := by
    funext c st
    cases st <;> rfl
  rw [actions, List.foldlM_filter, hskip]

/-- The declarations and the other statements determine the circuit, however they are mixed. -/
theorem circuit_congr {s s' : Script} (hdeclarations : s'.declarations = s.declarations)
    (hactions : s'.actions = s.actions) : s'.circuit = s.circuit := by
  simp only [circuit, ← foldlM_declareIn_declarations, ← foldlM_appendTo_actions, hdeclarations, hactions]

def tally (s : Script) : Nat := Statement.tally (s.registers .quantum) s.statements

/-- Declarations weigh nothing. -/
theorem tally_actions (s : Script) : Statement.tally (s.registers .quantum) s.actions = s.tally := by
  rw [tally, actions]
  generalize s.registers .quantum = qregs
  induction s.statements with
  | nil => rfl
  | cons st rest ih =>
    rw [Statement.tally_cons, ← ih]
    cases hst : st.isDeclaration with
    | true =>
      have hnothing : st.weight qregs + Statement.tally qregs st.inside = 0 := by
        cases st <;> first | rfl | cases hst
      rw [hnothing, Nat.zero_add, List.filter_cons_of_neg (by simp [hst])]
    | false => rw [List.filter_cons_of_pos (by simp [hst]), Statement.tally_cons]

theorem nested_actions_iff (s : Script) (n : Nat) : Nested s.actions n ↔ Nested s.statements n := by
  cases n with
  | zero => exact iff_of_true (.flat _) (.flat _)
  | succ n =>
    simp only [nested_succ_iff, mem_actions]
    constructor
    · rintro ⟨st, ⟨hst, -⟩, h⟩
      exact ⟨st, hst, h⟩
    · rintro ⟨st, hst, h⟩
      exact ⟨st, ⟨hst, Statement.isDeclaration_of_isControlFlow h.1⟩, h⟩

/-- The registers of a source and the operations that its statements become. -/
theorem becomes_circuit {s : Script} {c : Circuit} (h : s.circuit = .ok c) :
    (c.qregs = s.registers .quantum ∧ c.cregs = s.registers .classical) ∧
      NamesDiffer c ∧ Becomes c.qregs s.actions c.operations := by
  obtain ⟨declared, hdeclared, hadded⟩ := bind_eq_ok_iff.1 h
  obtain ⟨hqregs, hcregs⟩ := registers_foldlM_appendTo hadded
  have hregisters := registers_foldlM_declareIn hdeclared
  have hdiffer : NamesDiffer declared :=
    foldlM_ok_invariant (fun _ _ _ _ hd => NamesDiffer.declareIn hd) hdeclared List.nodup_nil
  rw [← foldlM_appendTo_actions] at hadded
  obtain ⟨ops, hops, hbecomes⟩ := becomes_foldlM_appendTo (fun st hst => (mem_actions.1 hst).2) hadded
  have hnone : declared.operations = [] := operations_foldlM_declareIn hdeclared
  rw [hnone, List.nil_append] at hops
  rw [NamesDiffer, hqregs, hcregs, hops]
  exact ⟨hregisters, hdiffer, hbecomes⟩

end Script

/-- In the circuit of a source each statement is counted once, at its depth, and a gate on one qubit that
is called with more once for each. The registers are those of the declarations, in order, under names
that differ; no declaration is inside another statement, and where they stand does not matter. -/
theorem statements_become_operations {s : Script} {c : Circuit} (h : s.circuit = .ok c) :
    c.operationCount = s.tally ∧
    (∀ n, Nested s.statements n ↔ n ≤ c.depth) ∧
    c.qregs = s.registers .quantum ∧ c.cregs = s.registers .classical ∧
    NamesDiffer c ∧
    (∀ st ∈ s.statements, ∀ x ∈ Statement.nodesAll st.inside, x.isDeclaration = false) ∧
    ∀ s' : Script, s'.declarations = s.declarations → s'.actions = s.actions →
      s'.circuit = .ok c := by
  obtain ⟨⟨hqregs, hcregs⟩, hdiffer, hbecomes⟩ := Script.becomes_circuit h
  refine ⟨?_, ?_, hqregs, hcregs, hdiffer, ?_, ?_⟩
  · rw [Circuit.operationCount, hbecomes.countAll_eq, hqregs, Script.tally_actions]
  · intro n
    rw [← Script.nested_actions_iff, hbecomes.nested_iff, Circuit.depth]
  · intro st hst x hx
    cases hdeclares : st.isDeclaration with
    | true =>
      have hempty : st.inside = [] := by cases st <;> first | rfl | cases hdeclares
      rw [hempty] at hx
      cases hx
    | false =>
      refine hbecomes.isDeclaration_eq_false x ?_
      rw [Statement.nodesAll_eq_flatMap, List.mem_flatMap]
      refine ⟨st, Script.mem_actions.2 ⟨hst, hdeclares⟩, ?_⟩
      rw [Statement.nodes_eq]
      exact List.mem_cons_of_mem st hx
  · intro s' hdeclarations hactions
    rw [Script.circuit_congr hdeclarations hactions, h]

/-- A gate for each qubit of a register, and a measurement inside two loops. -/
def hadamardThenLoops : List Statement :=
  [.gate ⟨"H", [], [⟨"q", .all⟩], []⟩,
    .forLoop "i" (.values [.int 1, .int 5])
      [.whileLoop (.index "b" (.int 0)) [.measure [⟨"q", .index 1⟩] [⟨"b", .index 0⟩]]]]

theorem statements_become_operations_lateDeclaration :
    let late : Script :=
      ⟨"3.0", .declare .quantum "q" 2 :: hadamardThenLoops ++ [.declare .classical "b" 1]⟩
    let early : Script :=
      ⟨"3.0", .declare .quantum "q" 2 :: .declare .classical "b" 1 :: hadamardThenLoops⟩
    ∃ c, late.circuit = .ok c ∧ c.operationCount = 5 ∧ c.depth = 2 ∧ c.qregs = [⟨"q", 2⟩] ∧
      c.cregs = [⟨"b", 1⟩] ∧ early.circuit = .ok c := by
  intro late early
  have hsome : late.circuit.toOption.isSome = true := by decide +kernel
  obtain ⟨c, hc⟩ := isSome_toOption_iff.1 hsome
  obtain ⟨hcount, hdepth, hqregs, hcregs, -, -, hmoved⟩ := statements_become_operations hc
  have htally : late.tally = 5 := by decide +kernel
  have htwo : Nested late.statements 2 := by
    simp [nested_succ_iff, late, hadamardThenLoops, Statement.inside, Statement.isControlFlow, Nested.flat]
  have hthree : ¬ Nested late.statements 3 := by
    simp [nested_succ_iff, late, hadamardThenLoops, Statement.inside, Statement.isControlFlow]
  rw [hdepth] at htwo hthree
  exact ⟨c, hc, hcount.trans htally, by omega, hqregs, hcregs, hmoved early rfl rfl⟩

end Qasm

end CircuitCalls
