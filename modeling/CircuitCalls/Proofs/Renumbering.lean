import CircuitCalls.Proofs.Compilability
import CircuitCalls.Proofs.Simulation
import Mathlib.Data.List.Perm.Subperm

/-!
# Numbers by declaration and numbers by mention

The two ways to number the bits of a circuit give different programs only in the numbers. Every bit
that a valid circuit mentions is declared, so that each number of the one numbering stands for a number
of the other (`Numbering.toward`). With these in place of the numbers, the program with mentioned bits
becomes the one with declared bits, and errors are the same (`discoveries_agree_up_to_numbers`).
-/

namespace CircuitCalls

/-! ## Numbers of the same bit -/

namespace Numbering

variable {kind : BitKind} {n m : Numbering kind}

/-- The number in `m` of the bit that has a number in `n`. -/
def toward (n m : Numbering kind) (i : Nat) : Nat := ((n.bits[i]?).map m.place).getD i

/-- A one-to-one map that takes the number of a bit in `n` to its number in `m`. -/
structure Embeds (n m : Numbering kind) (f : Nat → Nat) : Prop where
  inj : ∀ i < n.size, ∀ j < n.size, f i = f j → i = j
  lt_size : ∀ i < n.size, f i < m.size
  same_bit : ∀ i < n.size, m.bits[f i]? = n.bits[i]?

theorem toward_place {b : Bit kind} (h : b ∈ n.bits) : n.toward m (n.place b) = m.place b := by
  rw [toward, getElem?_place h, Option.map_some, Option.getD_some]

theorem mapM_resolve_toward {fault : Bit kind → EmitFault} {bits : List (Bit kind)}
    (hn : ∀ b ∈ bits, b ∈ n.bits) (hm : ∀ b ∈ bits, b ∈ m.bits) :
    bits.mapM (m.resolve fault) = List.map (n.toward m) <$> bits.mapM (n.resolve fault) := by
  have hplaces : bits.map m.place = (bits.map n.place).map (n.toward m) := by
    rw [List.map_map]
    exact List.map_congr_left fun b hb => (toward_place (hn b hb)).symm
  rw [mapM_resolve_eq_ok_iff.2 ⟨hn, rfl⟩, mapM_resolve_eq_ok_iff.2 ⟨hm, rfl⟩, hplaces]
  rfl

/-- Going from the number of a bit to its number in a larger numbering is one-to-one. -/
theorem embeds_toward (hsub : n.bits ⊆ m.bits) : n.Embeds m (n.toward m) := by
  have hsame : ∀ i < n.size, m.bits[n.toward m i]? = n.bits[i]? := by
    intro i hi
    have hbit : n.bits[i]? = some n.bits[i] := List.getElem?_eq_getElem hi
    rw [toward, hbit, Option.map_some, Option.getD_some]
    exact getElem?_place (hsub (List.getElem_mem hi))
  refine ⟨?_, ?_, hsame⟩
  · intro i hi j hj hij
    have hbits := hsame i hi
    rw [hij, hsame j hj] at hbits
    exact ((List.getElem?_inj hj n.nodup_bits).1 hbits).symm
  · intro i hi
    have hbits := hsame i hi
    rw [List.getElem?_eq_getElem hi] at hbits
    exact (List.getElem?_eq_some_iff.1 hbits).1

theorem size_le_of_subset (hsub : n.bits ⊆ m.bits) : n.size ≤ m.size :=
  (n.nodup_bits.subperm hsub).length_le

end Numbering

/-! ## Calls with other numbers -/

def Guard.renumber (g : Nat → Nat) (guard : Guard) : Guard := ⟨guard.clbits.map g, guard.value⟩

def Call.renumber (f g : Nat → Nat) : Call → Call
  | gate roles arguments => gate (roles.map f) arguments
  | measure qubits clbits => measure (qubits.map f) (clbits.map g)
  | beginIf guard => beginIf (guard.renumber g)
  | beginWhile guard => beginWhile (guard.renumber g)
  | call => call

def Line.renumber (f g : Nat → Nat) (line : Line) : Line := ⟨line.depth, line.call.renumber f g⟩

@[simp] theorem Line.renumber_otherwise (f g : Nat → Nat) (depth : Nat) :
    Line.renumber f g ⟨depth, .otherwise⟩ = ⟨depth, .otherwise⟩ := rfl

@[simp] theorem Line.renumber_endBlock (f g : Nat → Nat) (depth : Nat) :
    Line.renumber f g ⟨depth, .endBlock⟩ = ⟨depth, .endBlock⟩ := rfl

namespace Surroundings

/-- First calls that differ in their numbers only. -/
def CallsAlike (f g : Nat → Nat) (s t : Surroundings) (op : Operation) : Prop :=
  ∀ scope, t.firstCall scope op = Call.renumber f g <$> s.firstCall scope op

variable {s t : Surroundings} {f g : Nat → Nat}

theorem firstLine_renumber {op : Operation} (h : CallsAlike f g s t op) (scope : Scope) (path : Path)
    (depth : Nat) :
    t.firstLine scope path depth op = Line.renumber f g <$> s.firstLine scope path depth op := by
  rw [firstLine, h scope, firstLine]
  cases s.firstCall scope op <;> rfl

/-- Operations whose first calls differ in their numbers only have lines that do. -/
theorem lines_renumber_bodyLines_renumber
    (hvar : t.settings.defaultLoopVar = s.settings.defaultLoopVar) :
    (∀ op : Operation, (∀ o ∈ op.nodes, CallsAlike f g s t o) → ∀ scope path depth,
      t.lines scope path depth op = List.map (Line.renumber f g) <$> s.lines scope path depth op) ∧
    ∀ ops : List Operation, (∀ o ∈ Operation.nodesAll ops, CallsAlike f g s t o) →
      ∀ scope path branch depth index, t.bodyLines scope path branch depth index ops =
        List.map (Line.renumber f g) <$> s.bodyLines scope path branch depth index ops := by
  have hsource : ∀ loopVar, t.sourceVar loopVar = s.sourceVar loopVar := by
    intro loopVar
    rw [sourceVar, sourceVar, hvar]
  apply Operation.induction
  case gate =>
    intro gate qubits h scope path depth
    have hfirst := firstLine_renumber (h _ List.mem_cons_self) scope path depth
    simp [lines, hfirst]
  case measure =>
    intro qubits clbits h scope path depth
    have hfirst := firstLine_renumber (h _ List.mem_cons_self) scope path depth
    simp [lines, hfirst]
  case directive =>
    intro d qubits h scope path depth
    have hfirst := firstLine_renumber (h _ List.mem_cons_self) scope path depth
    simp [lines, hfirst]
  case ifThen =>
    intro condition thenBody ih h scope path depth
    obtain ⟨hop, hinside⟩ := List.forall_mem_cons.1 h
    obtain ⟨hthen, -⟩ := List.forall_mem_append.1 hinside
    have hfirst := firstLine_renumber hop scope path depth
    simp [lines, hfirst, ih hthen]
  case ifElse =>
    intro condition thenBody elseBody ihThen ihElse h scope path depth
    obtain ⟨hop, hinside⟩ := List.forall_mem_cons.1 h
    obtain ⟨hthen, helse⟩ := List.forall_mem_append.1 hinside
    have hfirst := firstLine_renumber hop scope path depth
    cases elseBody with
    | nil => simp [lines, hfirst, ihThen hthen]
    | cons op rest => simp [lines, hfirst, ihThen hthen, ihElse helse]
  case whileLoop =>
    intro condition body ih h scope path depth
    obtain ⟨hop, hbody⟩ := List.forall_mem_cons.1 h
    have hfirst := firstLine_renumber hop scope path depth
    simp [lines, hfirst, ih hbody]
  case forLoop =>
    intro iteration loopVar body ih h scope path depth
    obtain ⟨hop, hbody⟩ := List.forall_mem_cons.1 h
    have hfirst := firstLine_renumber hop scope path depth
    simp [lines, hfirst, ih hbody, hsource]
  case nil =>
    intro h scope path branch depth index
    rfl
  case cons =>
    intro op rest ihOp ihRest h scope path branch depth index
    obtain ⟨hop, hrest⟩ := List.forall_mem_append.1 h
    simp [bodyLines, ihOp hop, ihRest hrest]

theorem guard_toward {condition : Condition} (hcircuit : t.circuit = s.circuit)
    (hs : ∀ b ∈ s.circuit.conditionBits condition, b ∈ s.numbering.clbits.bits)
    (ht : ∀ b ∈ s.circuit.conditionBits condition, b ∈ t.numbering.clbits.bits) :
    t.guard condition =
      Guard.renumber (s.numbering.clbits.toward t.numbering.clbits) <$> s.guard condition := by
  rw [guard, guard, hcircuit]
  cases hread : s.circuit.readBits condition.target with
  | error fault => rfl
  | ok bits =>
    obtain ⟨-, rfl⟩ := readBits_eq_ok_iff.1 hread
    simp [Numbering.resolveClbits, Numbering.mapM_resolve_toward hs ht, Guard.renumber]

/-- An operation whose bits are numbered in both surroundings makes calls that differ in the numbers
of these bits. -/
theorem callsAlike_toward {op : Operation} (hcircuit : t.circuit = s.circuit)
    (hvar : t.settings.defaultLoopVar = s.settings.defaultLoopVar)
    (hq : ∀ q ∈ op.qubits, q ∈ s.numbering.qubits.bits ∧ q ∈ t.numbering.qubits.bits)
    (hb : ∀ b ∈ s.circuit.usedClbits op, b ∈ s.numbering.clbits.bits ∧ b ∈ t.numbering.clbits.bits) :
    CallsAlike (s.numbering.qubits.toward t.numbering.qubits)
      (s.numbering.clbits.toward t.numbering.clbits) s t op := by
  have hqubits : t.numbering.qubits.resolveQubits op.qubits =
      List.map (s.numbering.qubits.toward t.numbering.qubits) <$>
        s.numbering.qubits.resolveQubits op.qubits :=
    Numbering.mapM_resolve_toward (fun q h => (hq q h).1) fun q h => (hq q h).2
  intro scope
  cases op with
  | gate g qubits =>
    rw [Operation.qubits] at hqubits
    simp [firstCall, hqubits, Call.renumber, Gate.roles_map]
  | measure qubits clbits =>
    have hused : s.circuit.usedClbits (.measure qubits clbits) = clbits := List.append_nil clbits
    rw [hused] at hb
    have hclbits : t.numbering.clbits.resolveClbits clbits =
        List.map (s.numbering.clbits.toward t.numbering.clbits) <$>
          s.numbering.clbits.resolveClbits clbits :=
      Numbering.mapM_resolve_toward (fun b h => (hb b h).1) fun b h => (hb b h).2
    rw [Operation.qubits] at hqubits
    simp [firstCall, hqubits, hclbits, Call.renumber]
  | ifElse condition thenBody elseBody =>
    have hguard := guard_toward hcircuit (fun b h => (hb b h).1) fun b h => (hb b h).2
    simp [firstCall, hguard, Call.renumber]
  | whileLoop condition body =>
    have hguard := guard_toward hcircuit (fun b h => (hb b h).1) fun b h => (hb b h).2
    simp [firstCall, hguard, Call.renumber]
  | forLoop iteration loopVar body => simp [firstCall, sourceVar, hvar, Call.renumber]
  | directive d qubits => rfl

end Surroundings

/-! ## Programs of a valid circuit -/

namespace Circuit

variable {c : Circuit}

theorem referenced_qubits_subset (hc : c.validate = .ok ()) :
    (c.numbering .referenced).qubits.bits ⊆ (c.numbering .declared).qubits.bits := by
  intro q hq
  obtain ⟨op, hop, hmem⟩ := mem_referenced_qubits.1 hq
  exact mem_numbering_qubits_of_valid hc hop hmem .declared

theorem referenced_clbits_subset (hc : c.validate = .ok ()) :
    (c.numbering .referenced).clbits.bits ⊆ (c.numbering .declared).clbits.bits := by
  intro b hb
  obtain ⟨op, hop, hmem⟩ := mem_referenced_clbits.1 hb
  exact mem_numbering_clbits_of_valid hc hop hmem .declared

/-- The lines of a valid circuit under two strategies differ in their numbers only. -/
theorem bodyLines_toward (hc : c.validate = .ok ()) {settings settings' : Settings}
    (hvar : settings'.defaultLoopVar = settings.defaultLoopVar) :
    (c.surroundings settings').bodyLines [] [] .top 0 0 c.operations =
      List.map (Line.renumber
        ((c.numbering settings.discovery).qubits.toward (c.numbering settings'.discovery).qubits)
        ((c.numbering settings.discovery).clbits.toward (c.numbering settings'.discovery).clbits)) <$>
        (c.surroundings settings).bodyLines [] [] .top 0 0 c.operations := by
  refine (Surroundings.lines_renumber_bodyLines_renumber hvar).2 c.operations ?_ _ _ _ _ _
  intro op hop
  refine Surroundings.callsAlike_toward rfl hvar ?_ ?_
  · intro q hq
    exact ⟨mem_numbering_qubits_of_valid hc hop hq _, mem_numbering_qubits_of_valid hc hop hq _⟩
  · intro b hb
    exact ⟨mem_numbering_clbits_of_valid hc hop hb _, mem_numbering_clbits_of_valid hc hop hb _⟩

theorem emit_eq_bind (c : Circuit) (settings : Settings) :
    c.emit settings = (c.surroundings settings).bodyLines [] [] .top 0 0 c.operations >>= fun body =>
      .ok ⟨⟨0, .setQubitCount (c.numbering settings.discovery).qubits.size⟩ ::
        ⟨0, .setClbitCount (c.numbering settings.discovery).clbits.size⟩ :: body⟩ := rfl

end Circuit

/-- **The two discoveries agree up to the numbers.** There are one-to-one maps from the numbers of
mentioned bits to those of declared bits, bit by bit. A valid circuit gives a program under the one
strategy exactly if it does under the other, or else the same error. The program for declared bits is
the one for mentioned bits with its numbers mapped, apart from the size calls at its start. -/
theorem discoveries_agree_up_to_numbers {c : Circuit} (hc : c.validate = .ok ()) (settings : Settings) :
    ∃ f g : Nat → Nat,
      (c.numbering .referenced).qubits.Embeds (c.numbering .declared).qubits f ∧
      (c.numbering .referenced).clbits.Embeds (c.numbering .declared).clbits g ∧
      ((∃ p, c.emit { settings with discovery := .referenced } = .ok p) ↔
        ∃ q, c.emit { settings with discovery := .declared } = .ok q) ∧
      (∀ e, c.emit { settings with discovery := .referenced } = .error e ↔
        c.emit { settings with discovery := .declared } = .error e) ∧
      ∀ p q, c.emit { settings with discovery := .referenced } = .ok p →
        c.emit { settings with discovery := .declared } = .ok q →
        ∃ body,
          p.lines = ⟨0, .setQubitCount (c.numbering .referenced).qubits.size⟩ ::
            ⟨0, .setClbitCount (c.numbering .referenced).clbits.size⟩ :: body ∧
          q.lines = ⟨0, .setQubitCount (c.numbering .declared).qubits.size⟩ ::
            ⟨0, .setClbitCount (c.numbering .declared).clbits.size⟩ :: body.map (Line.renumber f g) ∧
          (c.numbering .referenced).qubits.size ≤ (c.numbering .declared).qubits.size ∧
          (c.numbering .referenced).clbits.size ≤ (c.numbering .declared).clbits.size := by
  have hqsub := Circuit.referenced_qubits_subset hc
  have hbsub := Circuit.referenced_clbits_subset hc
  refine ⟨_, _, Numbering.embeds_toward hqsub, Numbering.embeds_toward hbsub, ?_⟩
  have hbody := @Circuit.bodyLines_toward c hc { settings with discovery := .referenced }
    { settings with discovery := .declared } rfl
  simp only [Circuit.emit_eq_bind, hbody]
  cases (c.surroundings { settings with discovery := .referenced }).bodyLines [] [] .top 0 0
    c.operations with
  | error e => simp
  | ok body =>
    refine ⟨by simp, by simp, ?_⟩
    intro p q hp hq'
    cases hp
    cases hq'
    exact ⟨body, rfl, rfl, Numbering.size_le_of_subset hqsub,
      Numbering.size_le_of_subset hbsub⟩

/-- Some bits of larger registers, mentioned in another order than declared. -/
def sparseBits : Circuit where
  name := "sparse"
  qregs := [⟨"q", 4⟩]
  cregs := [⟨"c", 1⟩, ⟨"d", 2⟩]
  operations :=
    [.gate (.fixed .cx) [⟨"q", 3⟩, ⟨"q", 1⟩],
     .measure [⟨"q", 1⟩] [⟨"d", 1⟩],
     .ifElse ⟨.register "d", 2⟩ [.gate (.fixed .x) [⟨"q", 3⟩]] none]

theorem discoveries_agree_up_to_numbers_sparseBits :
    sparseBits.validate = .ok () ∧ ∃ f g p q,
      sparseBits.emit { discovery := .referenced } = .ok p ∧
      sparseBits.emit { discovery := .declared } = .ok q ∧
      p.qubitCount = 2 ∧ q.qubitCount = 4 ∧ f 0 = 3 ∧
      q.lines.drop 2 = (p.lines.drop 2).map (Line.renumber f g) := by
  have hvalid : sparseBits.validate = .ok () := by decide +kernel
  obtain ⟨f, g, hf, -, -, -, hprograms⟩ := discoveries_agree_up_to_numbers hvalid {}
  obtain ⟨body, hp, hq, -⟩ := hprograms _ _ rfl rfl
  refine ⟨hvalid, f, g, _, _, rfl, rfl, rfl, rfl, ?_, ?_⟩
  · have hlt := hf.lt_size 0 (by decide)
    have hbit : (sparseBits.numbering .declared).qubits.bits[f 0]? =
        (sparseBits.numbering .declared).qubits.bits[3]? := hf.same_bit 0 (by decide)
    exact (List.getElem?_inj hlt (Numbering.nodup_bits _)).1 hbit
  · rw [hp, hq]
    rfl

end CircuitCalls
