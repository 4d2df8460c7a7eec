import CircuitCalls.Proofs.LoopVariables

/-!
# What a call says of its operation

`Circuit.Represents` tells which call stands for an operation, with numbers in place of bits. Only the
names of loop variables and the texts of gate arguments are left open: they depend on the loops around
the operation, and nothing else does. The calls of a program that stand for operations represent the
operations of the circuit one by one, in document order (`emit_represents`).
-/

namespace CircuitCalls

namespace Numbering

variable {kind : BitKind} {n : Numbering kind}

/-- Bits and their numbers, each bit having one. -/
def Gives (n : Numbering kind) (bits : List (Bit kind)) (numbers : List Nat) : Prop :=
  bits.map n.get? = numbers.map some

/-- Bits are given numbers in only one way. -/
theorem gives_iff {bits : List (Bit kind)} {numbers : List Nat} :
    n.Gives bits numbers ↔ (∀ b ∈ bits, b ∈ n.bits) ∧ numbers = bits.map n.place := by
  unfold Gives
  induction bits generalizing numbers with
  | nil => cases numbers <;> simp
  | cons b rest ih =>
    cases numbers with
    | nil => simp
    | cons i is =>
      rw [List.map_cons, List.map_cons, List.cons.injEq, ih, List.map_cons, List.cons.injEq,
        List.forall_mem_cons]
      constructor
      · rintro ⟨hb, hrest, rfl⟩
        have hmem : b ∈ n.bits := by
          by_contra hn
          rw [get?_eq_none_iff.2 hn] at hb
          cases hb
        rw [get?_eq_place hmem] at hb
        exact ⟨⟨hmem, hrest⟩, (Option.some.inj hb).symm, rfl⟩
      · rintro ⟨⟨hmem, hrest⟩, rfl, rfl⟩
        exact ⟨get?_eq_place hmem, hrest, rfl⟩

theorem mapM_resolve_eq_ok_iff_gives {fault : Bit kind → EmitFault} {bits : List (Bit kind)}
    {numbers : List Nat} : bits.mapM (n.resolve fault) = .ok numbers ↔ n.Gives bits numbers := by
  rw [mapM_resolve_eq_ok_iff, gives_iff]

theorem Gives.length {bits : List (Bit kind)} {numbers : List Nat} (h : n.Gives bits numbers) :
    numbers.length = bits.length := by
  rw [(gives_iff.1 h).2, List.length_map]

end Numbering

/-- A call that stands for an operation. -/
inductive Circuit.Represents (c : Circuit) (n : CircuitNumbering) : Operation → Call → Prop where
  | gate {g : Gate} {qubits : List Qubit} {operands : List Nat} {arguments : List String} :
      n.qubits.Gives qubits operands → arguments.length = g.parameters.length →
      Represents c n (.gate g qubits) (.gate (g.action operands) arguments)
  | measure {qubits : List Qubit} {clbits : List Clbit} {qs cs : List Nat} :
      n.qubits.Gives qubits qs → n.clbits.Gives clbits cs →
      Represents c n (.measure qubits clbits) (.measure qs cs)
  | ifElse {condition : Condition} {thenBody : List Operation} {elseBody : Option (List Operation)}
      {cs : List Nat} : n.clbits.Gives (c.conditionBits condition) cs →
      Represents c n (.ifElse condition thenBody elseBody) (.beginIf ⟨cs, condition.value⟩)
  | whileLoop {condition : Condition} {body : List Operation} {cs : List Nat} :
      n.clbits.Gives (c.conditionBits condition) cs →
      Represents c n (.whileLoop condition body) (.beginWhile ⟨cs, condition.value⟩)
  /-- The variable takes the values of the loop, under whatever name. -/
  | forLoop {iteration : Iteration} {loopVar : Option String} {body : List Operation}
      {header : LoopHeader} : header.RunsOver iteration →
      Represents c n (.forLoop iteration loopVar body) (.beginFor header)

namespace Circuit.Represents

variable {c : Circuit} {n : CircuitNumbering} {op : Operation} {call : Call}

theorem of_roles {g : Gate} {qubits : List Qubit} {operands : List Nat} {arguments : List String}
    (hoperands : n.qubits.Gives qubits operands) (harguments : arguments.length = g.parameters.length) :
    c.Represents n (.gate g qubits) (.gate (g.roles operands) arguments) := by
  rw [← Gate.action_eq_roles]
  exact .gate hoperands harguments

theorem opensBlock (h : c.Represents n op call) : call.opensBlock = op.isControlFlow := by
  cases h <;> rfl

end Circuit.Represents

namespace Surroundings

theorem guard_gives {s : Surroundings} {condition : Condition} {guard : Guard}
    (h : s.guard condition = .ok guard) :
    ∃ cs, s.numbering.clbits.Gives (s.circuit.conditionBits condition) cs ∧
      guard = ⟨cs, condition.value⟩ := by
  obtain ⟨-, hall, rfl⟩ := guard_eq_ok_iff.1 h
  exact ⟨_, Numbering.gives_iff.2 ⟨hall, rfl⟩, rfl⟩

/-- The call that an operation opens with stands for it. -/
theorem represents_firstCall {s : Surroundings} {scope : Scope} {op : Operation} {call : Call}
    (h : s.firstCall scope op = .ok call) : s.circuit.Represents s.numbering op call := by
  cases op with
  | gate g qubits =>
    obtain ⟨operands, hoperands, rfl⟩ := firstCall_gate.1 h
    exact .of_roles (Numbering.mapM_resolve_eq_ok_iff_gives.1 hoperands) (List.length_map _)
  | measure qubits clbits =>
    obtain ⟨qs, cs, hqs, hcs, rfl⟩ := firstCall_measure.1 h
    exact .measure (Numbering.mapM_resolve_eq_ok_iff_gives.1 hqs)
      (Numbering.mapM_resolve_eq_ok_iff_gives.1 hcs)
  | ifElse condition thenBody elseBody =>
    obtain ⟨guard, hguard, rfl⟩ := firstCall_ifElse.1 h
    obtain ⟨cs, hcs, rfl⟩ := guard_gives hguard
    exact .ifElse hcs
  | whileLoop condition body =>
    obtain ⟨guard, hguard, rfl⟩ := firstCall_whileLoop.1 h
    obtain ⟨cs, hcs, rfl⟩ := guard_gives hguard
    exact .whileLoop hcs
  | forLoop iteration loopVar body =>
    obtain ⟨header, hheader, rfl⟩ := firstCall_forLoop.1 h
    exact .forLoop (header_eq_ok_iff.1 hheader).2
  | directive d qubits => cases h

end Surroundings

theorem map_call_sitesFrom (blocks calls : List Call) :
    (sitesFrom blocks calls).map (·.call) = calls := by
  induction calls generalizing blocks with
  | nil => rfl
  | cons call rest ih => rw [sitesFrom, List.map_cons, ih]

theorem Program.map_call_sites (p : Program) :
    (p.sites.filter (·.call.isOperation)).map (·.call) = p.calls.filter Call.isOperation := by
  rw [← map_call_sitesFrom [] p.calls, List.filter_map]
  rfl

/-- The operations of a circuit and the calls that stand for them, one by one. -/
theorem Circuit.emit_represents {c : Circuit} {settings : Settings} {p : Program}
    (h : c.emit settings = .ok p) :
    List.Forall₂ (c.Represents (c.numbering settings.discovery)) c.nodes
      (p.calls.filter Call.isOperation) := by
  rw [← c.map_operation_occurrences, ← p.map_call_sites, List.forall₂_map_left_iff,
    List.forall₂_map_right_iff]
  refine (Circuit.emit_placed h).forall₂.imp ?_
  intro o site hopened
  exact Surroundings.represents_firstCall hopened.1

end CircuitCalls
