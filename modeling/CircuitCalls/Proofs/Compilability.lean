import CircuitCalls.Proofs.Elaboration
import CircuitCalls.Proofs.Emission

/-!
# Valid circuits can be emitted

Three walks over the operations have to agree: the one that checks a circuit, the one that numbers
its bits, and the one that emits its calls. `Surroundings.Faulty` lists what can stop the last one.
In a valid circuit nothing is left of that list but directives and loops with too many rounds, however
the bits are numbered; and a numbering by reference has a number for every bit in any circuit.
-/

namespace CircuitCalls

namespace Surroundings

/-- What keeps an operation from being emitted, and the fault that is reported. -/
inductive Faulty (s : Surroundings) : Operation → EmitFault → Prop where
  | qubit {op : Operation} {q : Qubit} :
      q ∈ op.qubits → q ∉ s.numbering.qubits.bits → Faulty s op (.unresolvedQubit q)
  | clbit {op : Operation} {b : Clbit} :
      b ∈ s.circuit.usedClbits op → b ∉ s.numbering.clbits.bits → Faulty s op (.unresolvedClbit b)
  | register {op : Operation} {condition : Condition} {name : String} :
      op.condition? = some condition → condition.target = .register name →
      s.circuit.creg? name = none → Faulty s op (.unresolvedRegister name)
  | zeroStep {start stop : Int64} {loopVar : Option String} {body : List Operation} :
      Faulty s (.forLoop (.range start stop 0) loopVar body) .zeroStep
  | count {n : UInt64} {loopVar : Option String} {body : List Operation} :
      roundLimit ≤ n.toNat → Faulty s (.forLoop (.count n) loopVar body) (.countTooLarge n)
  | directive {d : Directive} {qubits : List Qubit} :
      Faulty s (.directive d qubits) (.unknownOperation d.name)

variable {s : Surroundings}

theorem faulty_of_resolveQubits {op : Operation} {fault : EmitFault}
    (h : s.numbering.qubits.resolveQubits op.qubits = .error fault) : s.Faulty op fault := by
  obtain ⟨before, q, after, hop, -, hq, rfl⟩ := Numbering.mapM_resolve_eq_error_iff.1 h
  refine .qubit ?_ hq
  rw [hop]
  simp

theorem faulty_of_resolveClbits {op : Operation} {clbits : List Clbit} {fault : EmitFault}
    (hop : ∀ b ∈ clbits, b ∈ s.circuit.usedClbits op)
    (h : s.numbering.clbits.resolveClbits clbits = .error fault) : s.Faulty op fault := by
  obtain ⟨before, b, after, rfl, -, hb, rfl⟩ := Numbering.mapM_resolve_eq_error_iff.1 h
  exact .clbit (hop b (by simp)) hb

/-- A condition fails for a register that is not declared or for a bit without a number. -/
theorem faulty_of_guard {op : Operation} {condition : Condition} {fault : EmitFault}
    (hop : op.condition? = some condition) (h : s.guard condition = .error fault) :
    s.Faulty op fault := by
  rcases bind_eq_error_iff.1 h with h | ⟨bits, hbits, h⟩
  · unfold Circuit.readBits at h
    cases ht : condition.target with
    | bit b =>
      rw [ht] at h
      cases h
    | register name =>
      rw [ht] at h
      cases hr : s.circuit.creg? name with
      | none =>
        simp only [hr, Except.error.injEq] at h
        rw [← h]
        exact .register hop ht hr
      | some r =>
        simp only [hr] at h
        cases h
  · rcases bind_eq_error_iff.1 h with h | ⟨numbers, -, h⟩
    · obtain ⟨-, rfl⟩ := readBits_eq_ok_iff.1 hbits
      refine faulty_of_resolveClbits ?_ h
      intro b hb
      simp [Circuit.usedClbits, hop, hb]
    · cases h

/-- Each way in which the first call can fail is one of the faults. -/
theorem faulty_of_firstCall {scope : Scope} {op : Operation} {fault : EmitFault}
    (h : s.firstCall scope op = .error fault) : s.Faulty op fault := by
  cases op with
  | gate g qubits =>
    rcases bind_eq_error_iff.1 h with h | ⟨operands, -, h⟩
    · exact faulty_of_resolveQubits h
    · cases h
  | measure qubits clbits =>
    rcases bind_eq_error_iff.1 h with h | ⟨qs, -, h⟩
    · exact faulty_of_resolveQubits h
    · rcases bind_eq_error_iff.1 h with h | ⟨cs, -, h⟩
      · exact faulty_of_resolveClbits (fun b hb => List.mem_append_left _ hb) h
      · cases h
  | ifElse condition thenBody elseBody =>
    rcases bind_eq_error_iff.1 h with h | ⟨guard, -, h⟩
    · exact faulty_of_guard rfl h
    · cases h
  | whileLoop condition body =>
    rcases bind_eq_error_iff.1 h with h | ⟨guard, -, h⟩
    · exact faulty_of_guard rfl h
    · cases h
  | forLoop iteration loopVar body =>
    rcases bind_eq_error_iff.1 h with h | ⟨header, -, h⟩
    · cases iteration with
      | range start stop step =>
        rw [header] at h
        by_cases hstep : step = 0
        · rw [if_pos hstep] at h
          cases h
          rw [hstep]
          exact .zeroStep
        · rw [if_neg hstep] at h
          cases h
      | values vs => cases h
      | count n =>
        rw [header] at h
        by_cases hn : n.toNat < roundLimit
        · rw [if_pos hn] at h
          cases h
        · rw [if_neg hn] at h
          cases h
          exact .count (Nat.le_of_not_lt hn)
    · cases h
  | directive d qubits =>
    cases h
    exact .directive

end Surroundings

/-! ## Every bit of a valid circuit has a number -/

namespace Circuit

variable {c : Circuit} {op : Operation}

theorem hasQubit_of_admits (h : c.Admits op) {q : Qubit} (hq : q ∈ op.qubits) :
    c.hasQubit q = true := by
  cases op with
  | gate g qubits => exact h.1.1 q hq
  | measure qubits clbits => exact h.2.1.1 q hq
  | directive d qubits => exact h.1 q hq
  | ifElse condition thenBody elseBody => cases hq
  | whileLoop condition body => cases hq
  | forLoop iteration loopVar body => cases hq

/-- A condition on declared bits reads no other bits. -/
theorem hasClbit_of_declares {condition : Condition} (h : c.Declares condition.target) {b : Clbit}
    (hb : b ∈ c.conditionBits condition) : c.hasClbit b = true := by
  unfold conditionBits at hb
  cases ht : condition.target with
  | bit a =>
    rw [ht] at h hb
    rw [List.mem_singleton.1 hb]
    exact h
  | register name =>
    rw [ht] at hb
    cases hr : c.creg? name with
    | none => simp [hr] at hb
    | some r =>
      -- Registers are found by name, and the one that is found is declared.
      have hmem : r ∈ c.cregs := List.mem_of_find?_eq_some hr
      simp only [hr, Option.map_some, Option.getD_some] at hb
      exact List.any_eq_true.2 ⟨r, hmem, Register.mem_bits.1 hb⟩

theorem hasClbit_of_admits (h : c.Admits op) {b : Clbit} (hb : b ∈ c.usedClbits op) :
    c.hasClbit b = true := by
  cases op with
  | gate g qubits => cases hb
  | measure qubits clbits =>
    exact h.2.2 b (by simpa [usedClbits, Operation.clbits, Operation.condition?] using hb)
  | directive d qubits => cases hb
  | ifElse condition thenBody elseBody => exact hasClbit_of_declares h hb
  | whileLoop condition body => exact hasClbit_of_declares h hb
  | forLoop iteration loopVar body => cases hb

theorem mem_numbering_qubits_of_valid (hc : c.validate = .ok ()) (hop : op ∈ c.nodes) {q : Qubit}
    (hq : q ∈ op.qubits) (d : Discovery) : q ∈ (c.numbering d).qubits.bits := by
  cases d with
  | declared => exact mem_declared_qubits.2 (hasQubit_of_admits (validate_eq_ok_iff.1 hc op hop) hq)
  | referenced => exact mem_referenced_qubits.2 ⟨op, hop, hq⟩

theorem mem_numbering_clbits_of_valid (hc : c.validate = .ok ()) (hop : op ∈ c.nodes) {b : Clbit}
    (hb : b ∈ c.usedClbits op) (d : Discovery) : b ∈ (c.numbering d).clbits.bits := by
  cases d with
  | declared => exact mem_declared_clbits.2 (hasClbit_of_admits (validate_eq_ok_iff.1 hc op hop) hb)
  | referenced => exact mem_referenced_clbits.2 ⟨op, hop, hb⟩

/-- The only faults of a valid circuit: a directive, and a loop with more rounds than a loop bound
can say. -/
def RemainingFault (op : Operation) (fault : EmitFault) : Prop :=
  (∃ d qubits, op = .directive d qubits ∧ fault = .unknownOperation d.name) ∨
  ∃ n loopVar body, op = .forLoop (.count n) loopVar body ∧ roundLimit ≤ n.toNat ∧
    fault = .countTooLarge n

/-- Bits of a valid circuit are declared and have numbers under both strategies, so that only two faults are
left. -/
theorem remainingFault_of_faulty (hc : c.validate = .ok ()) {settings : Settings}
    {fault : EmitFault} (hop : op ∈ c.nodes) (h : (c.surroundings settings).Faulty op fault) :
    RemainingFault op fault := by
  have hadmits : c.Admits op := validate_eq_ok_iff.1 hc op hop
  cases h with
  | qubit hq hn => exact absurd (mem_numbering_qubits_of_valid hc hop hq _) hn
  | clbit hb hn => exact absurd (mem_numbering_clbits_of_valid hc hop hb _) hn
  | @register _ condition name hcond ht hr =>
    have hdeclares : c.Declares condition.target := by
      cases op with
      | ifElse condition' thenBody elseBody =>
        cases hcond
        exact hadmits
      | whileLoop condition' body =>
        cases hcond
        exact hadmits
      | _ => cases hcond
    rw [ht] at hdeclares
    have hnone : c.creg? name = none := hr
    simp [Declares, hnone] at hdeclares
  | @zeroStep start stop loopVar body => exact absurd rfl (hadmits start stop)
  | count hn => exact Or.inr ⟨_, _, _, rfl, hn, rfl⟩
  | directive => exact Or.inl ⟨_, _, rfl, rfl⟩

theorem not_supported_of_remainingFault {fault : EmitFault} (h : RemainingFault op fault) :
    ¬ op.Supported := by
  rcases h with ⟨d, qubits, rfl, -⟩ | ⟨n, loopVar, body, rfl, hn, -⟩
  · exact not_false
  · exact Nat.not_lt.2 hn

/-! ## Emission of valid circuits -/

/-- An error is that of an operation at its path. -/
theorem exists_faulty_of_emit {settings : Settings} {e : EmitError} (h : c.emit settings = .error e) :
    ∃ o ∈ c.occurrences, o.path = e.path ∧ (c.surroundings settings).Faulty o.operation e.fault := by
  obtain ⟨before, o, after, ho, -, herror⟩ := emit_eq_error h
  obtain ⟨hcall, hpath⟩ := Surroundings.attempt_eq_error_iff.1 herror
  refine ⟨o, ?_, hpath, Surroundings.faulty_of_firstCall hcall⟩
  rw [ho]
  simp

theorem emit_error_of_valid (hc : c.validate = .ok ()) {settings : Settings} {e : EmitError}
    (h : c.emit settings = .error e) :
    ∃ o ∈ c.occurrences, o.path = e.path ∧ RemainingFault o.operation e.fault := by
  obtain ⟨o, ho, hpath, hfaulty⟩ := exists_faulty_of_emit h
  exact ⟨o, ho, hpath, remainingFault_of_faulty hc (operation_mem_nodes ho) hfaulty⟩

theorem emit_ok_of_valid (hc : c.validate = .ok ()) (hs : ∀ op ∈ c.nodes, op.Supported)
    (settings : Settings) : ∃ p, c.emit settings = .ok p := by
  cases h : c.emit settings with
  | ok p => exact ⟨p, rfl⟩
  | error e =>
    obtain ⟨o, ho, -, hfault⟩ := emit_error_of_valid hc h
    exact absurd (hs _ (operation_mem_nodes ho)) (not_supported_of_remainingFault hfault)

/-- Under `referenced` every bit that is mentioned gets a number, whether or not it is declared. -/
theorem emit_error_referenced {settings : Settings} {e : EmitError}
    (hd : settings.discovery = .referenced) (h : c.emit settings = .error e) :
    (∀ q, e.fault ≠ .unresolvedQubit q) ∧ ∀ b, e.fault ≠ .unresolvedClbit b := by
  obtain ⟨o, ho, -, hfaulty⟩ := exists_faulty_of_emit h
  have hop := operation_mem_nodes ho
  generalize o.operation = op at hop hfaulty
  constructor
  · intro q hq
    rw [hq] at hfaulty
    cases hfaulty with
    | qubit hmem hn =>
      rw [surroundings, hd] at hn
      exact hn (mem_referenced_qubits.2 ⟨_, hop, hmem⟩)
  · intro b hb
    rw [hb] at hfaulty
    cases hfaulty with
    | clbit hmem hn =>
      rw [surroundings, hd] at hn
      exact hn (mem_referenced_clbits.2 ⟨_, hop, hmem⟩)

end Circuit

/-- Validation guarantees emission. A valid circuit fails only at a directive or at a loop with too
many rounds, and is emitted if it has neither; a source without directives is always emitted; and in
any circuit a numbering by reference leaves no bit without a number. -/
theorem valid_circuits_emit :
    (∀ (c : Circuit) (settings : Settings), c.validate = .ok () →
      (∀ e, c.emit settings = .error e →
        ∃ o ∈ c.occurrences, o.path = e.path ∧
          ((∃ d qubits, o.operation = .directive d qubits ∧ e.fault = .unknownOperation d.name) ∨
           ∃ n loopVar body, o.operation = .forLoop (.count n) loopVar body ∧ roundLimit ≤ n.toNat ∧
             e.fault = .countTooLarge n)) ∧
      ((∀ op ∈ c.nodes, op.Supported) → ∃ p, c.emit settings = .ok p)) ∧
    (∀ (source : String) (script : Qasm.Script) (c : Circuit) (settings : Settings),
      Qasm.Script.parse source = .ok script → Qasm.readCircuit source = .ok c →
      (∀ s ∈ script.nodes, s.isDirective = false) → ∃ p, c.emit settings = .ok p) ∧
    ∀ (c : Circuit) (settings : Settings) (e : EmitError), settings.discovery = .referenced →
      c.emit settings = .error e →
      (∀ q, e.fault ≠ .unresolvedQubit q) ∧ ∀ b, e.fault ≠ .unresolvedClbit b := by
  refine ⟨?_, ?_, ?_⟩
  · intro c settings hc
    exact ⟨fun e he => Circuit.emit_error_of_valid hc he,
      fun hs => Circuit.emit_ok_of_valid hc hs settings⟩
  · intro source script c settings hparse hread hfree
    rw [Qasm.readCircuit, hparse] at hread
    have hc : script.circuit = .ok c := hread
    exact Circuit.emit_ok_of_valid (Qasm.Script.validate_circuit hc)
      (Qasm.Script.supported_circuit hc hfree) settings
  · intro c settings e hd he
    exact Circuit.emit_error_referenced hd he

/-- A loop around a reset, which the simulator does not know. -/
def resetLoop : Circuit :=
  ⟨"reset", [⟨"q", 1⟩], [], [.forLoop (.count 3) none [.directive .reset [⟨"q", 0⟩]]]⟩

/-- A condition on a register that is not declared, inside which an undeclared qubit is used. -/
def undeclared : Circuit :=
  ⟨"undeclared", [], [], [.ifElse ⟨.register "c", 1⟩ [.gate (.fixed .x) [⟨"q", 0⟩]] none]⟩

def loopSource : String :=
  "OPENQASM 3.0; qubit[2] q; bit b; h q[0]; for int i in [0:1] \x7b if (b == 1) \x7b x q[1]; \x7d \x7d"

theorem valid_circuits_emit_loopSource :
    (resetLoop.validate = .ok () ∧
      resetLoop.emit {} = .error ⟨.unknownOperation "reset", [⟨.top, 0⟩, ⟨.loopBody, 0⟩]⟩ ∧
      ∃ o ∈ resetLoop.occurrences, o.path = [⟨.top, 0⟩, ⟨.loopBody, 0⟩] ∧
        ∃ d qubits, o.operation = .directive d qubits ∧ d.name = "reset") ∧
    (∃ script c p, Qasm.Script.parse loopSource = .ok script ∧
      (∀ s ∈ script.nodes, s.isDirective = false) ∧ Qasm.readCircuit loopSource = .ok c ∧
      c.emit { discovery := .referenced } = .ok p) ∧
    undeclared.emit { discovery := .referenced } =
        .error ⟨.unresolvedRegister "c", [⟨.top, 0⟩]⟩ ∧
      ∀ q, EmitFault.unresolvedRegister "c" ≠ .unresolvedQubit q := by
  refine ⟨⟨rfl, rfl, ?_⟩, ?_, rfl, ?_⟩
  · obtain ⟨o, ho, hpath, ⟨d, qubits, hop, hfault⟩ | ⟨n, loopVar, body, -, -, hfault⟩⟩ :=
      (valid_circuits_emit.1 resetLoop {} rfl).1 _ rfl
    · exact ⟨o, ho, hpath, d, qubits, hop, (EmitFault.unknownOperation.inj hfault).symm⟩
    · cases hfault
  · have hfree : ((Qasm.Script.parse loopSource).toOption.map fun s =>
        s.nodes.all (·.isDirective == false)) = some true := by decide +kernel
    have hread : (Qasm.readCircuit loopSource).toOption.isSome = true := by decide +kernel
    cases hs : Qasm.Script.parse loopSource with
    | error e =>
      rw [hs] at hfree
      cases hfree
    | ok script =>
      cases hc : Qasm.readCircuit loopSource with
      | error e =>
        rw [hc] at hread
        cases hread
      | ok c =>
        rw [hs] at hfree
        have hnodes : ∀ s ∈ script.nodes, s.isDirective = false := by
          simpa [Except.toOption] using hfree
        obtain ⟨p, hp⟩ := valid_circuits_emit.2.1 loopSource script c
          { discovery := .referenced } hs hc hnodes
        exact ⟨script, c, p, rfl, hnodes, rfl, hp⟩
  · exact (valid_circuits_emit.2.2 undeclared { discovery := .referenced } _ rfl rfl).1

end CircuitCalls
