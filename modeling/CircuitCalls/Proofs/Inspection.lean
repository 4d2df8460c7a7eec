import CircuitCalls.Proofs.Nesting
import CircuitCalls.Proofs.Session
import CircuitCalls.Proofs.ShownText
import CircuitCalls.Proofs.Simulation

/-!
# What is shown of a circuit and what is emitted for it

A circuit is shown with the numbers of its bits, and a program has these numbers in place of the bits. The
totals that are shown are the two counts of the program, and a number in a call, looked up among the numbers
that are shown, gives the bit of the operation that the call stands for.

The number of operations that is shown is that at every depth, although the line calls them operations at the
top level. The two numbers are the same only for circuits where no operation stands inside another
(`shown_numbers_are_those_of_programs`).
-/

namespace CircuitCalls

/-! ## Looking up numbers -/

theorem Numbering.Gives.lookup {kind : BitKind} {n : Numbering kind} {bits : List (Bit kind)}
    {numbers : List Nat} (h : n.Gives bits numbers) : numbers.map (n.bits[·]?) = bits.map some := by
  obtain ⟨hmem, rfl⟩ := gives_iff.1 h
  rw [List.map_map]
  exact List.map_congr_left fun b hb => getElem?_place (hmem b hb)

/-- The numbers of a call are shown as the bits of an operation, each in its role. -/
inductive Inspection.Explains (i : Inspection) (c : Circuit) : Operation → Call → Prop where
  | gate {g : Gate} {qubits : List Qubit} {roles : Roles Nat} {arguments : List String} :
      roles.map (i.qubits.bits[·]?) = (g.action qubits).map some →
      Explains i c (.gate g qubits) (.gate roles arguments)
  | measure {qubits : List Qubit} {clbits : List Clbit} {qs cs : List Nat} :
      qs.map (i.qubits.bits[·]?) = qubits.map some → cs.map (i.clbits.bits[·]?) = clbits.map some →
      Explains i c (.measure qubits clbits) (.measure qs cs)
  | ifElse {condition : Condition} {thenBody : List Operation} {elseBody : Option (List Operation)}
      {guard : Guard} :
      guard.clbits.map (i.clbits.bits[·]?) = (c.conditionBits condition).map some →
      Explains i c (.ifElse condition thenBody elseBody) (.beginIf guard)
  | whileLoop {condition : Condition} {body : List Operation} {guard : Guard} :
      guard.clbits.map (i.clbits.bits[·]?) = (c.conditionBits condition).map some →
      Explains i c (.whileLoop condition body) (.beginWhile guard)
  | forLoop {iteration : Iteration} {loopVar : Option String} {body : List Operation}
      {header : LoopHeader} : Explains i c (.forLoop iteration loopVar body) (.beginFor header)

theorem Circuit.Represents.explains {c : Circuit} {discovery : Discovery} {op : Operation} {call : Call}
    (h : c.Represents (c.numbering discovery) op call) : (c.inspection discovery).Explains c op call := by
  cases h with
  | @gate g qubits operands arguments hoperands _ =>
    refine .gate ?_
    rw [Gate.action_eq_roles, Gate.action_eq_roles, ← Gate.roles_map, ← Gate.roles_map]
    exact congrArg g.roles hoperands.lookup
  | measure hqs hcs => exact .measure hqs.lookup hcs.lookup
  | ifElse hcs => exact .ifElse hcs.lookup
  | whileLoop hcs => exact .whileLoop hcs.lookup
  | forLoop _ => exact .forLoop

/-! ## Size calls -/

/-- Sizes are set once, at the start of a program. -/
theorem Circuit.sizes_of_emit {c : Circuit} {settings : Settings} {p : Program}
    (h : c.emit settings = .ok p) :
    p.calls.filter Call.isSize =
      [.setQubitCount (c.numbering settings.discovery).qubits.size,
        .setClbitCount (c.numbering settings.discovery).clbits.size] := by
  obtain ⟨ls, hls, hp⟩ := Circuit.emit_eq_ok h
  obtain ⟨trees, hm, rfl⟩ := Surroundings.emits_mirrors hls
  have hnone : ((CallTree.linesAll 0 trees).map (·.call)).filter Call.isSize = [] := by
    refine List.filter_eq_nil_iff.2 fun call hcall => ?_
    obtain ⟨line, hline, rfl⟩ := List.mem_map.1 hcall
    exact Bool.eq_false_iff.1 (hm.not_isSize 0 line hline)
  rw [Program.calls, hp, List.map_cons, List.map_cons, List.filter_cons_of_pos rfl,
    List.filter_cons_of_pos rfl, hnone]

/-! ## Numbers of operations -/

namespace Operation

theorem length_nodes_and_all :
    (∀ op, (nodes op).length = count op) ∧ ∀ ops, (nodesAll ops).length = countAll ops := by
  apply Operation.induction
  case gate => intros; rfl
  case measure => intros; rfl
  case directive => intros; rfl
  case ifThen =>
    intro condition thenBody ih
    simp [nodes, count, ih]
    omega
  case ifElse =>
    intro condition thenBody elseBody ihThen ihElse
    simp [nodes, count, ihThen, ihElse]
    omega
  case whileLoop =>
    intro condition body ih
    simp [nodes, count, ih]
    omega
  case forLoop =>
    intro iteration loopVar body ih
    simp [nodes, count, ih]
    omega
  case nil => rfl
  case cons =>
    intro op rest ihOp ihRest
    simp [nodesAll, countAll, ihOp, ihRest]

theorem countAll_eq_zero_iff {ops : List Operation} : countAll ops = 0 ↔ ops = [] := by
  cases ops with
  | nil => simp [countAll]
  | cons op rest =>
    rw [countAll, count_eq]
    simp

theorem length_le_countAll (ops : List Operation) : ops.length ≤ countAll ops := by
  induction ops with
  | nil => exact Nat.zero_le _
  | cons op rest ih =>
    rw [countAll, count_eq, List.length_cons]
    omega

theorem count_eq_one_iff {op : Operation} : op.count = 1 ↔ ∀ body ∈ op.bodies, body = [] := by
  have hbodies : (∀ body ∈ op.bodies, body = []) ↔ op.body = [] ∧ op.otherBody = [] := by
    cases op with
    | ifElse condition thenBody elseBody => cases elseBody <;> simp [bodies, body, otherBody]
    | _ => simp [bodies, body, otherBody]
  rw [count_eq, hbodies, ← countAll_eq_zero_iff, ← countAll_eq_zero_iff]
  omega

/-- Operations are as many at every depth as at the top exactly if none stands inside another. -/
theorem countAll_eq_length_iff {ops : List Operation} :
    countAll ops = ops.length ↔ ∀ op ∈ ops, ∀ body ∈ op.bodies, body = [] := by
  induction ops with
  | nil => simp [countAll]
  | cons op rest ih =>
    rw [List.forall_mem_cons, ← ih, ← count_eq_one_iff, countAll, List.length_cons]
    have hop := count_eq op
    have hrest := length_le_countAll rest
    omega

end Operation

/-! ## Showing a circuit -/

theorem run_inspect {arguments : List String} {t : FileTree} {path : String} {discovery : Discovery}
    {c : Circuit} (hrequest : Request.ofArguments arguments = .ok (.inspect path discovery))
    (hload : loadCircuit t.sources path = .ok c) :
    run arguments t = ⟨0, (c.inspection discovery).text, "", t⟩ := by
  have hlooks : Session.Looks (loadCircuit Session.host.toSources path) ⟨t, "", ""⟩ (.ok c) := by
    rw [← hload]
    exact Session.looks_loadCircuit path
  have hexecute : (Request.inspect path discovery).execute Session.host Settings.decode? ⟨t, "", ""⟩ =
      .ok () ⟨t, "" ++ (c.inspection discovery).text, ""⟩ := Session.bind_of_ok hlooks
  rw [run, runWith, hrequest]
  simp only [hexecute, Outcome.ofResult, String.empty_append]

/-- **The numbers that are shown are those of programs.** A circuit that can be loaded is shown under either
strategy, and nothing else happens. The number of operations, the totals and the numbered bits can be read off
the text, if no name holds the end of a line. The totals are the counts of every program that is emitted under that
strategy, which has no other size calls, and its calls one by one have the numbers that are shown for the
bits of the operations. The number of operations that is shown is that at every depth. It is the number at
the top level exactly if no operation there has one inside. -/
theorem shown_numbers_are_those_of_programs {arguments : List String} {t : FileTree} {path : String}
    {discovery : Discovery} {c : Circuit}
    (hrequest : Request.ofArguments arguments = .ok (.inspect path discovery))
    (hload : loadCircuit t.sources path = .ok c) :
    run arguments t = ⟨0, (c.inspection discovery).text, "", t⟩ ∧
    ((c.inspection discovery).IsPlain →
      Shown.ofText? (run arguments t).stdout = some (c.inspection discovery).shown) ∧
    (∀ settings p, settings.discovery = discovery → c.emit settings = .ok p →
      p.calls.filter Call.isSize =
        [.setQubitCount (c.inspection discovery).qubits.size,
          .setClbitCount (c.inspection discovery).clbits.size] ∧
      List.Forall₂ ((c.inspection discovery).Explains c) c.nodes (p.calls.filter Call.isOperation)) ∧
    (c.inspection discovery).operations = c.nodes.length ∧
    ((c.inspection discovery).operations = c.operations.length ↔
      ∀ op ∈ c.operations, ∀ body ∈ op.bodies, body = []) := by
  refine ⟨run_inspect hrequest hload, ?_, ?_, ?_, Operation.countAll_eq_length_iff⟩
  · intro hplain
    rw [run_inspect hrequest hload, Inspection.ofText?_text hplain]
  · rintro settings p rfl hemit
    refine ⟨Circuit.sizes_of_emit hemit, ?_⟩
    exact (Circuit.emit_represents hemit).imp fun op call hrepresents => hrepresents.explains
  · exact (Operation.length_nodes_and_all.2 c.operations).symm

/-- A circuit without nesting that leaves some of its bits unused, and one with a gate inside a conditional. -/
def twoCircuits : FileTree := .ofFiles
  [("flat.qasm", "OPENQASM 3.0;\nqubit[3] q;\nbit[2] c;\nx q[2];\nc[1] = measure q[0];\n"),
    ("nested.qasm", "OPENQASM 3.0;\nqubit q;\nbit c;\nif (c) \x7b x q; \x7d\n")]

theorem shown_numbers_are_those_of_programs_flat :
    ∃ c p, loadCircuit twoCircuits.sources "flat.qasm" = .ok c ∧
      c.emit { discovery := .referenced } = .ok p ∧
      run ["inspect", "flat.qasm", "--discovery", "referenced"] twoCircuits =
        ⟨0, (c.inspection .referenced).text, "", twoCircuits⟩ ∧
      Shown.ofText? (run ["inspect", "flat.qasm", "--discovery", "referenced"] twoCircuits).stdout =
        some ⟨2, ⟨2, [(0, "q[2]"), (1, "q[0]")]⟩, ⟨1, [(0, "c[1]")]⟩⟩ ∧
      p.calls.filter Call.isSize = [.setQubitCount 2, .setClbitCount 1] ∧
      List.Forall₂ ((c.inspection .referenced).Explains c) c.nodes (p.calls.filter Call.isOperation) ∧
      (c.inspection .referenced).operations = c.operations.length := by
  have hfacts : ((loadCircuit twoCircuits.sources "flat.qasm").toOption.map fun c =>
      ((c.emit { discovery := .referenced }).toOption.isSome,
        c.operations.all fun op => op.bodies.all List.isEmpty,
        decide (c.inspection .referenced).IsPlain, (c.inspection .referenced).shown)) =
      some (true, true, true, ⟨2, ⟨2, [(0, "q[2]"), (1, "q[0]")]⟩, ⟨1, [(0, "c[1]")]⟩⟩) := by
    decide +kernel
  cases hload : loadCircuit twoCircuits.sources "flat.qasm" with
  | error e =>
    rw [hload] at hfacts
    cases hfacts
  | ok c =>
    rw [hload] at hfacts
    obtain ⟨hemits, hflat, hplain, hshown⟩ :
        (c.emit { discovery := .referenced }).toOption.isSome = true ∧
        (c.operations.all fun op => op.bodies.all List.isEmpty) = true ∧
        (c.inspection .referenced).IsPlain ∧ (c.inspection .referenced).shown = _ := by
      simpa [Except.toOption] using hfacts
    have hqubits : (c.inspection .referenced).qubits.size = 2 := congrArg (·.qubits.total) hshown
    have hclbits : (c.inspection .referenced).clbits.size = 1 := congrArg (·.clbits.total) hshown
    obtain ⟨p, hemit⟩ := isSome_toOption_iff.1 hemits
    have hrequest : Request.ofArguments ["inspect", "flat.qasm", "--discovery", "referenced"] =
        .ok (.inspect "flat.qasm" .referenced) := rfl
    obtain ⟨hrun, htext, hprograms, -, hcount⟩ := shown_numbers_are_those_of_programs hrequest hload
    obtain ⟨hsizes, hcalls⟩ := hprograms _ p rfl hemit
    rw [hqubits, hclbits] at hsizes
    rw [hshown] at htext
    exact ⟨c, p, rfl, hemit, hrun, htext hplain, hsizes, hcalls, hcount.2 (by simpa using hflat)⟩

/-- The operation inside the conditional is shown as one at the top level. -/
theorem nested_operation_shown_at_top_level :
    ((loadCircuit twoCircuits.sources "nested.qasm").toOption.map fun c => c.operations.length) = some 1 ∧
    (run ["inspect", "nested.qasm"] twoCircuits).stdout =
      "Circuit qasm_circuit (2 operations at top level)\n\nRegisters:\n  qubit[1] q\n  bit[1]   c\n\n" ++
      "Qubit numbering (declared, 1 total):\n     0 -> q[0]\n\n" ++
      "Clbit numbering (declared, 1 total):\n     0 -> c[0]\n" := by
  constructor <;> decide +kernel

end CircuitCalls
