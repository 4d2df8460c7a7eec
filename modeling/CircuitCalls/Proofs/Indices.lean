import CircuitCalls.Proofs.Compilability
import CircuitCalls.Proofs.Representation
import CircuitCalls.Proofs.Roles

/-!
# The numbers in a program

Every number in the calls of a program stands for a bit and is below the count that the program asks
for. In a program of a valid circuit the operands of a gate are different, and each of them has one
role. Where bits are numbered as they are mentioned, no number below the counts is left out
(`emitted_numbers_are_well_formed`).
-/

namespace CircuitCalls

/-! ## Numbers of calls -/

namespace Call

/-- The numbers of qubits in a call; only gates and measurements have any. -/
def qubits : Call → List Nat
  | gate roles _ => roles.targets ++ roles.positive ++ roles.negative
  | measure qubits _ => qubits
  | _ => []

/-- The numbers of classical bits in a call; only measurements and conditions have any. -/
def clbits : Call → List Nat
  | measure _ clbits => clbits
  | beginIf guard => guard.clbits
  | beginWhile guard => guard.clbits
  | _ => []

theorem isOperation_of_mem_qubits {call : Call} {i : Nat} (h : i ∈ call.qubits) :
    call.isOperation = true := by
  cases call with
  | gate roles arguments => rfl
  | measure qubits clbits => rfl
  | _ => cases h

theorem isOperation_of_mem_clbits {call : Call} {i : Nat} (h : i ∈ call.clbits) :
    call.isOperation = true := by
  cases call with
  | measure qubits clbits => rfl
  | beginIf guard => rfl
  | beginWhile guard => rfl
  | _ => cases h

end Call

namespace Numbering

variable {kind : BitKind} {n : Numbering kind}

theorem place_lt_size {b : Bit kind} (h : b ∈ n.bits) : n.place b < n.size :=
  (List.getElem?_eq_some_iff.1 (getElem?_place h)).1

/-- Every number below the size is that of a bit. -/
theorem exists_place_eq {i : Nat} (hi : i < n.size) :
    ∃ b ∈ n.bits, n.place b = i :=
  ⟨_, List.getElem_mem hi, place_of_getElem? (List.getElem?_eq_getElem hi)⟩

theorem Gives.nodup {bits : List (Bit kind)} {numbers : List Nat} (h : n.Gives bits numbers)
    (hbits : bits.Nodup) : numbers.Nodup := by
  obtain ⟨hmem, rfl⟩ := gives_iff.1 h
  exact hbits.map_on fun a ha b hb => place_inj (hmem a ha) (hmem b hb)

end Numbering

namespace Circuit.Represents

variable {c : Circuit} {n : CircuitNumbering} {op : Operation} {call : Call}

/-- A call has the numbers of its operation's qubits. -/
theorem perm_qubits (h : c.Represents n op call) :
    (∀ q ∈ op.qubits, q ∈ n.qubits.bits) ∧ call.qubits.Perm (op.qubits.map n.qubits.place) := by
  cases h with
  | @gate g qubits operands arguments hoperands _ =>
    obtain ⟨hmem, rfl⟩ := Numbering.gives_iff.1 hoperands
    rw [Gate.action_eq_roles]
    exact ⟨hmem, g.perm_roles _⟩
  | measure hqs _ =>
    obtain ⟨hmem, rfl⟩ := Numbering.gives_iff.1 hqs
    exact ⟨hmem, .refl _⟩
  | ifElse _ => exact ⟨List.forall_mem_nil _, .refl _⟩
  | whileLoop _ => exact ⟨List.forall_mem_nil _, .refl _⟩
  | forLoop _ => exact ⟨List.forall_mem_nil _, .refl _⟩

/-- A call has the numbers of the classical bits that its operation uses. -/
theorem clbits_eq (h : c.Represents n op call) :
    (∀ b ∈ c.usedClbits op, b ∈ n.clbits.bits) ∧
      call.clbits = (c.usedClbits op).map n.clbits.place := by
  cases h with
  | gate _ _ => exact ⟨List.forall_mem_nil _, rfl⟩
  | @measure qubits clbits qs cs _ hcs =>
    have hused : c.usedClbits (.measure qubits clbits) = clbits := List.append_nil clbits
    rw [hused]
    exact Numbering.gives_iff.1 hcs
  | ifElse hcs => exact Numbering.gives_iff.1 hcs
  | whileLoop hcs => exact Numbering.gives_iff.1 hcs
  | forLoop _ => exact ⟨List.forall_mem_nil _, rfl⟩

end Circuit.Represents

/-! ## Operands of gates and measurements -/

/-- The operands of a gate split into roles: each has exactly one, the targets are the last operands,
and they are as many as the root asks for. -/
structure Gate.Splits (g : Gate) (operands : List Nat) (roles : Roles Nat) : Prop where
  perm : (roles.targets ++ roles.positive ++ roles.negative).Perm operands
  nodup : (roles.targets ++ roles.positive ++ roles.negative).Nodup
  trailing : roles.targets <:+ operands
  root : g.RootIs operands.length roles.root roles.targets.length

/-- A call with the numbers of an operation, none of them twice among the qubits. -/
inductive Numbered (n : CircuitNumbering) : Operation → Call → Prop where
  | gate {g : Gate} {qubits : List Qubit} {operands : List Nat} {roles : Roles Nat}
      {arguments : List String} : n.qubits.Gives qubits operands → g.Splits operands roles →
      Numbered n (.gate g qubits) (.gate roles arguments)
  | measure {qubits : List Qubit} {clbits : List Clbit} {qs cs : List Nat} :
      n.qubits.Gives qubits qs → n.clbits.Gives clbits cs → qs.Nodup → qs.length = cs.length →
      Numbered n (.measure qubits clbits) (.measure qs cs)
  | block {op : Operation} {call : Call} : op.isControlFlow = true → call.opensBlock = true →
      Numbered n op call

/-- A call that stands for an admitted operation has its numbers, none of them twice among the qubits. -/
theorem Circuit.Represents.numbered {c : Circuit} {n : CircuitNumbering} {op : Operation}
    {call : Call} (hadmits : c.Admits op) (h : c.Represents n op call) : Numbered n op call := by
  cases h with
  | @gate g qubits operands arguments hoperands _ =>
    obtain ⟨⟨-, hnodup⟩, harity, -⟩ := hadmits
    rw [Gate.action_eq_roles]
    have hperm := g.perm_roles operands
    refine .gate hoperands ⟨hperm, ?_, g.targets_suffix operands, ?_⟩
    · exact hperm.nodup_iff.2 (hoperands.nodup hnodup)
    · exact Gate.rootIs_roles (harity.trans hoperands.length.symm)
  | measure hqs hcs =>
    obtain ⟨hlength, ⟨-, hnodup⟩, -⟩ := hadmits
    refine .measure hqs hcs (hqs.nodup hnodup) ?_
    rw [hqs.length, hcs.length, hlength]
  | ifElse _ => exact .block rfl rfl
  | whileLoop _ => exact .block rfl rfl
  | forLoop _ => exact .block rfl rfl

/-! ## Programs -/

namespace Circuit

variable {c : Circuit} {settings : Settings} {p : Program}

theorem counts_of_emit (h : c.emit settings = .ok p) :
    p.qubitCount = (c.numbering settings.discovery).qubits.size ∧
      p.clbitCount = (c.numbering settings.discovery).clbits.size := by
  obtain ⟨ls, -, hp⟩ := emit_eq_ok h
  rw [Program.qubitCount, Program.clbitCount, Program.calls, hp]
  exact ⟨rfl, rfl⟩

/-- Every call that stands for an operation represents one. -/
theorem exists_represented (h : c.emit settings = .ok p) {call : Call} (hcall : call ∈ p.calls)
    (hoperation : call.isOperation = true) :
    ∃ op ∈ c.nodes, c.Represents (c.numbering settings.discovery) op call :=
  exists_right_of_forall₂ (emit_represents h).flip (List.mem_filter.2 ⟨hcall, hoperation⟩)

/-- Every operation is represented by a call. -/
theorem exists_representing (h : c.emit settings = .ok p) {op : Operation} (hop : op ∈ c.nodes) :
    ∃ call ∈ p.calls, c.Represents (c.numbering settings.discovery) op call := by
  obtain ⟨call, hcall, hrepresents⟩ := exists_right_of_forall₂ (emit_represents h) hop
  exact ⟨call, (List.mem_filter.1 hcall).1, hrepresents⟩

/-- All numbers in calls are below the sizes that the program sets. -/
theorem lt_counts (h : c.emit settings = .ok p) {call : Call} (hcall : call ∈ p.calls) :
    (∀ i ∈ call.qubits, i < p.qubitCount) ∧ ∀ i ∈ call.clbits, i < p.clbitCount := by
  obtain ⟨hqubits, hclbits⟩ := counts_of_emit h
  rw [hqubits, hclbits]
  constructor
  · intro i hi
    obtain ⟨op, -, hrepresents⟩ := exists_represented h hcall (Call.isOperation_of_mem_qubits hi)
    obtain ⟨hmem, hperm⟩ := hrepresents.perm_qubits
    obtain ⟨q, hq, rfl⟩ := List.mem_map.1 (hperm.mem_iff.1 hi)
    exact Numbering.place_lt_size (hmem q hq)
  · intro i hi
    obtain ⟨op, -, hrepresents⟩ := exists_represented h hcall (Call.isOperation_of_mem_clbits hi)
    obtain ⟨hmem, hclbits⟩ := hrepresents.clbits_eq
    rw [hclbits] at hi
    obtain ⟨b, hb, rfl⟩ := List.mem_map.1 hi
    exact Numbering.place_lt_size (hmem b hb)

/-- Where bits are numbered as they are mentioned, every number is used. -/
theorem exists_call_of_lt_counts (h : c.emit settings = .ok p)
    (hdiscovery : settings.discovery = .referenced) :
    (∀ i < p.qubitCount, ∃ call ∈ p.calls, i ∈ call.qubits) ∧
      ∀ i < p.clbitCount, ∃ call ∈ p.calls, i ∈ call.clbits := by
  obtain ⟨hqubits, hclbits⟩ := counts_of_emit h
  rw [hqubits, hclbits, hdiscovery]
  constructor
  · intro i hi
    obtain ⟨q, hq, rfl⟩ := Numbering.exists_place_eq hi
    obtain ⟨op, hop, hmem⟩ := mem_referenced_qubits.1 hq
    obtain ⟨call, hcall, hrepresents⟩ := exists_representing h hop
    rw [hdiscovery] at hrepresents
    exact ⟨call, hcall, hrepresents.perm_qubits.2.mem_iff.2 (List.mem_map_of_mem hmem)⟩
  · intro i hi
    obtain ⟨b, hb, rfl⟩ := Numbering.exists_place_eq hi
    obtain ⟨op, hop, hmem⟩ := mem_referenced_clbits.1 hb
    obtain ⟨call, hcall, hrepresents⟩ := exists_representing h hop
    rw [hdiscovery] at hrepresents
    refine ⟨call, hcall, ?_⟩
    rw [hrepresents.clbits_eq.2]
    exact List.mem_map_of_mem hmem

theorem numbered_of_valid (hc : c.validate = .ok ()) (h : c.emit settings = .ok p) :
    List.Forall₂ (Numbered (c.numbering settings.discovery)) c.nodes
      (p.calls.filter Call.isOperation) := by
  have hall := (List.forall₂_and_left _ _).2 ⟨validate_eq_ok_iff.1 hc, emit_represents h⟩
  refine hall.imp ?_
  rintro op call ⟨hadmits, hrepresents⟩
  exact hrepresents.numbered hadmits

end Circuit

/-- **Numbers in programs are well formed.** All numbers are below the counts of the program. The
calls for the operations of a valid circuit have the numbers of their bits, with one role for each
operand of a gate, as many targets as its root has qubits, and as many qubits as classical bits in a
measurement. Where bits are numbered as they are mentioned, each number below a count occurs. -/
theorem emitted_numbers_are_well_formed {c : Circuit} {settings : Settings} {p : Program}
    (hc : c.validate = .ok ()) (h : c.emit settings = .ok p) :
    (∀ call ∈ p.calls,
      (∀ i ∈ call.qubits, i < p.qubitCount) ∧ ∀ i ∈ call.clbits, i < p.clbitCount) ∧
    List.Forall₂ (Numbered (c.numbering settings.discovery)) c.nodes
      (p.calls.filter Call.isOperation) ∧
    (settings.discovery = .referenced →
      (∀ i < p.qubitCount, ∃ call ∈ p.calls, i ∈ call.qubits) ∧
        ∀ i < p.clbitCount, ∃ call ∈ p.calls, i ∈ call.clbits) := by
  refine ⟨?_, Circuit.numbered_of_valid hc h, ?_⟩
  · intro call hcall
    exact Circuit.lt_counts h hcall
  · intro hdiscovery
    exact Circuit.exists_call_of_lt_counts h hdiscovery

/-- A gate with a control that fires on 0, a custom gate with a marked name, a measurement and a
condition, on some of the declared bits. -/
def mixedOperands : Circuit where
  name := "mixed"
  qregs := [⟨"q", 5⟩]
  cregs := [⟨"c", 2⟩]
  operations :=
    [.gate (.controlled "ccx" 2 (some 1) (.fixed .cx) none) [⟨"q", 4⟩, ⟨"q", 1⟩, ⟨"q", 0⟩, ⟨"q", 2⟩],
     .ifElse ⟨.bit ⟨"c", 1⟩, 1⟩ [.gate (.custom ⟨"mcswap", 3, []⟩ none) [⟨"q", 2⟩, ⟨"q", 4⟩, ⟨"q", 0⟩]]
       none,
     .measure [⟨"q", 1⟩] [⟨"c", 1⟩]]

theorem emitted_numbers_are_well_formed_mixedOperands :
    mixedOperands.validate = .ok () ∧ ∃ p,
      mixedOperands.emit { discovery := .referenced } = .ok p ∧ p.qubitCount = 4 ∧
      List.Forall₂ (Numbered (mixedOperands.numbering .referenced)) mixedOperands.nodes
        [.gate ⟨"x", [3], [0, 2], [1]⟩ [], .beginIf ⟨[0], 1⟩, .gate ⟨"swap", [0, 2], [3], []⟩ [],
          .measure [1] [0]] ∧
      ∀ i < p.qubitCount, ∃ call ∈ p.calls, i ∈ call.qubits := by
  have hvalid : mixedOperands.validate = .ok () := by decide +kernel
  obtain ⟨-, hnumbered, hused⟩ :=
    @emitted_numbers_are_well_formed mixedOperands { discovery := .referenced } _ hvalid rfl
  exact ⟨hvalid, _, rfl, rfl, hnumbered, (hused rfl).1⟩

end CircuitCalls
