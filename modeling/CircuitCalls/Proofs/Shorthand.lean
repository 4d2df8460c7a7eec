import CircuitCalls.Proofs.Modifiers

/-!
# Operands and calls in full

A register or a slice as an operand is short for its bits one after the other, and a call of a gate on
one qubit with more operands is short for as many calls. A source in which some of this is written in
full (`Respelled`) stands for the same circuit, or is refused for the same reason.
-/

namespace CircuitCalls.Qasm

/-! ## Operands in full -/

section Operands

variable {kind : BitKind} {registers : List (Register kind)}

/-- The places that a selection covers in a register of that size. -/
def Selection.places (size : UInt32) : Selection → List Nat
  | all => List.range size.toNat
  | index i => [i.toNat]
  | slice first last => List.range' first.toNat (last.toNat + 1 - first.toNat)

namespace Operand

/-- The operand names a declared register, stays inside it and selects at least one bit. -/
def selects (registers : List (Register kind)) (o : Operand) : Bool :=
  match findRegister? o.register registers with
  | some r =>
    match o.selection with
    | .all => 0 < r.size
    | .index i => i < r.size
    | .slice first last => first ≤ last ∧ last < r.size
  | none => false

/-- The operand as single bits: `q[0]`, `q[1]` and so on. -/
def inFull (registers : List (Register kind)) (o : Operand) : List Operand :=
  match findRegister? o.register registers with
  | some r => (o.selection.places r.size).map fun i => ⟨o.register, .index (UInt32.ofNat i)⟩
  | none => [o]

def Are (registers : List (Register kind)) (operands : List Operand) (bits : List (Bit kind)) : Prop :=
  List.Forall₂ (fun o b => o.bits registers = .ok [b]) operands bits

end Operand

theorem operandBits_append (first second : List Operand) :
    operandBits registers (first ++ second) = (do
      let bits ← operandBits registers first
      let more ← operandBits registers second
      return bits ++ more) := by
  induction first with
  | nil =>
    rw [List.nil_append, operandBits, ok_bind]
    cases operandBits registers second <;> rfl
  | cons o rest ih => simp [operandBits_cons, ih]

theorem operandBits_of_are {operands : List Operand} {bits : List (Bit kind)}
    (h : Operand.Are registers operands bits) : operandBits registers operands = .ok bits := by
  induction h with
  | nil => rfl
  | cons ho _ ih =>
    rw [operandBits_cons, ho, ih]
    rfl

/-- A selection that fits covers places inside the register, one at least, and selects the bits there. -/
theorem places_of_selects {r : Register kind} {o : Operand}
    (hr : findRegister? o.register registers = some r) (h : o.selects registers = true) :
    (∀ i ∈ o.selection.places r.size, i < r.size.toNat) ∧ o.selection.places r.size ≠ [] ∧
      o.selection.bits r =
        .ok ((o.selection.places r.size).map fun i => ⟨r.name, UInt32.ofNat i⟩) := by
  rw [Operand.selects, hr] at h
  cases hs : o.selection with
  | all =>
    simp only [hs, decide_eq_true_eq, UInt32.lt_iff_toNat_lt] at h
    refine ⟨fun i hi => List.mem_range.1 hi, ?_, rfl⟩
    simpa [Selection.places] using Nat.ne_of_gt h
  | index i =>
    simp only [hs, decide_eq_true_eq] at h
    refine ⟨?_, by simp [Selection.places], ?_⟩
    · simpa [Selection.places] using UInt32.lt_iff_toNat_lt.1 h
    · simp [Selection.bits, Selection.places, checkIndex, h]
  | slice first last =>
    simp only [hs, decide_eq_true_eq] at h
    obtain ⟨hle, hlt⟩ := h
    have hfirst : first < r.size := UInt32.lt_of_le_of_lt hle hlt
    rw [UInt32.le_iff_toNat_le] at hle
    refine ⟨fun i hi => ?_, ?_, ?_⟩
    · have := UInt32.lt_iff_toNat_lt.1 hlt
      rw [Selection.places, List.mem_range'_1] at hi
      omega
    · simp only [Selection.places, ne_eq, List.range'_eq_nil_iff]
      omega
    · simp [Selection.bits, Selection.places, checkIndex, hfirst, hlt, Register.slice]

/-- An operand that selects bits selects the same ones in full. -/
theorem are_inFull {o : Operand} (h : o.selects registers = true) :
    ∃ bits, o.bits registers = .ok bits ∧ Operand.Are registers (o.inFull registers) bits ∧
      bits ≠ [] := by
  cases hr : findRegister? o.register registers with
  | none => simp [Operand.selects, hr] at h
  | some r =>
    obtain ⟨hplaces, hne, hbits⟩ := places_of_selects hr h
    refine ⟨_, (Operand.bits_of_find? hr).trans hbits, ?_, by simpa using hne⟩
    simp only [Operand.inFull, hr, Operand.Are, List.forall₂_map_left_iff,
      List.forall₂_map_right_iff, List.forall₂_same]
    intro i hi
    have hlt := hplaces i hi
    have hin : UInt32.ofNat i < r.size := by
      rw [UInt32.lt_iff_toNat_lt,
        UInt32.toNat_ofNat_of_lt' (Nat.lt_trans hlt r.size.toNat_lt_size)]
      exact hlt
    simp [Operand.bits, hr, Selection.bits, checkIndex, hin]

/-- Some of the operands are written in full. -/
inductive SpelledOut (registers : List (Register kind)) : List Operand → List Operand → Prop where
  | nil : SpelledOut registers [] []
  | keep (o : Operand) {rest rest' : List Operand} :
      SpelledOut registers rest rest' → SpelledOut registers (o :: rest) (o :: rest')
  | spell {o : Operand} {rest rest' : List Operand} :
      o.selects registers = true → SpelledOut registers rest rest' →
      SpelledOut registers (o :: rest) (o.inFull registers ++ rest')

namespace SpelledOut

variable {operands operands' : List Operand}

theorem operandBits_eq (h : SpelledOut registers operands operands') :
    operandBits registers operands' = operandBits registers operands := by
  induction h with
  | nil => rfl
  | keep o _ ih => rw [operandBits_cons, operandBits_cons, ih]
  | spell ho _ ih =>
    obtain ⟨bits, hbits, hare, -⟩ := are_inFull ho
    rw [operandBits_append, operandBits_of_are hare, operandBits_cons, hbits, ih]

theorem eq_nil_iff (h : SpelledOut registers operands operands') : operands' = [] ↔ operands = [] := by
  cases h with
  | nil => exact Iff.rfl
  | keep o _ => simp
  | spell ho _ =>
    obtain ⟨bits, -, hare, hne⟩ := are_inFull ho
    have hfull : Operand.inFull registers _ ≠ [] := fun hnil => hne (by
      rw [hnil] at hare
      exact List.forall₂_nil_left_iff.1 hare)
    simp [hfull]

/-- All operands may be written in full. -/
theorem flatMap (h : ∀ o ∈ operands, o.selects registers = true) :
    SpelledOut registers operands (operands.flatMap (Operand.inFull registers)) := by
  induction operands with
  | nil => exact .nil
  | cons o rest ih =>
    rw [List.forall_mem_cons] at h
    exact .spell h.1 (ih h.2)

theorem refl (operands : List Operand) : SpelledOut registers operands operands := by
  induction operands with
  | nil => exact .nil
  | cons o rest ih => exact .keep o ih

end SpelledOut

theorem are_flatMap_inFull {operands : List Operand} (h : ∀ o ∈ operands, o.selects registers = true) :
    ∃ bits, operandBits registers operands = .ok bits ∧
      Operand.Are registers (operands.flatMap (Operand.inFull registers)) bits := by
  induction operands with
  | nil => exact ⟨[], rfl, .nil⟩
  | cons o rest ih =>
    rw [List.forall_mem_cons] at h
    obtain ⟨bits, hbits, hare, -⟩ := are_inFull h.1
    obtain ⟨more, hmore, hares⟩ := ih h.2
    refine ⟨bits ++ more, ?_, List.rel_append hare hares⟩
    rw [operandBits_cons, hbits, hmore]
    rfl

end Operands

/-! ## Calls in full -/

def GateForm.arity : GateForm → Nat
  | fixed g => g.arity
  | rotation g => g.arity
  | u2 | u3 => 1

theorem GateForm.arity_of_gate? {form : GateForm} {parameters : List Parameter} {g : StandardGate}
    (h : form.gate? parameters = some g) : g.arity = form.arity := by
  unfold gate? at h
  split at h <;> cases h <;> rfl

namespace GateCall

/-- A call without modifiers of a standard gate on one qubit. -/
def isSingle (call : GateCall) : Bool :=
  call.modifiers.isEmpty && (GateForm.ofName? (lowercase call.name)).map GateForm.arity == some 1

/-- The call with one operand in place of its own. -/
def on (call : GateCall) (o : Operand) : GateCall := { call with qubits := [o] }

def singleGate (call : GateCall) : Except Error Gate := do
  let parameters ← call.parameters.mapM Expression.parameter
  call.baseGate parameters 1

variable {call : GateCall} {qregs : List (Register .quantum)}

/-- The name alone decides which gate on one qubit a call is for. -/
theorem baseGate_of_isSingle (h : call.isSingle = true) (parameters : List Parameter) (operands : Nat) :
    call.baseGate parameters operands = call.baseGate parameters 1 ∧
      ∀ g, call.baseGate parameters 1 = .ok g → g.arity = 1 := by
  simp only [isSingle, Bool.and_eq_true, beq_iff_eq] at h
  obtain ⟨form, hform, harity⟩ := Option.map_eq_some_iff.1 h.2
  cases hgate : form.gate? parameters with
  | none =>
    have herror : standardGate (lowercase call.name) parameters =
        .error (.parameterCount (lowercase call.name) form.parameterCount parameters.length) := by
      simp only [standardGate, hform, hgate]
    simp [baseGate, herror]
  | some g =>
    have hstandard : standardGate (lowercase call.name) parameters = .ok (some g) := by
      simp only [standardGate, hform, hgate]
    rw [baseGate_of_standard hstandard, baseGate_of_standard hstandard]
    refine ⟨rfl, fun g' hg' => ?_⟩
    cases hg'
    exact (GateForm.arity_of_gate? hgate).trans harity

/-- A gate on one qubit is applied to each operand in turn. -/
theorem operations_of_isSingle (h : call.isSingle = true) {bits : List Qubit}
    (hbits : operandBits qregs call.qubits = .ok bits) (hne : bits ≠ []) :
    call.operations qregs = (do
      let g ← call.singleGate
      return bits.map fun b => .gate g [b]) := by
  have hplain : call.modifiers = [] := by
    simp only [isSingle, Bool.and_eq_true, List.isEmpty_iff] at h
    exact h.1
  rw [operations, hbits, ok_bind, singleGate]
  cases call.parameters.mapM Expression.parameter with
  | error e => rfl
  | ok parameters =>
    obtain ⟨hbase, harity⟩ := baseGate_of_isSingle h parameters bits.length
    rw [ok_bind, ok_bind, hbase]
    cases hg : call.baseGate parameters 1 with
    | error e => rfl
    | ok g =>
      rw [ok_bind, ok_bind, hplain, harity g hg]
      cases bits with
      | nil => exact absurd rfl hne
      | cons b rest =>
        cases rest with
        | nil => simp [applyModifiers, harity g hg]
        | cons b' rest => simp

end GateCall

/-! ## Statements that add the same operations -/

def Statement.isDeclaration : Statement → Bool
  | .declare _ _ _ => true
  | _ => false

theorem Statement.declareIn_of_not {s : Statement} (h : s.isDeclaration = false) (c : Circuit) :
    s.declareIn c = .ok c := by
  cases s <;> first | rfl | cases h

theorem foldlM_declareIn_of_not {ss : List Statement} (h : ∀ s ∈ ss, s.isDeclaration = false)
    (c : Circuit) : ss.foldlM Statement.declareIn c = .ok c := by
  induction ss with
  | nil => rfl
  | cons s rest ih =>
    rw [List.forall_mem_cons] at h
    rw [List.foldlM_cons, Statement.declareIn_of_not h.1, ok_bind, ih h.2]

theorem Statement.appendTo_of_not {s : Statement} (h : s.isDeclaration = false) (c : Circuit) :
    s.appendTo c = (do
      let ops ← s.operations c
      liftCircuit (ops.foldlM Circuit.append c)) := by
  cases s <;> first | rfl | cases h

/-- Adding statements leaves the registers as they are. -/
theorem registers_foldlM_appendTo {ss : List Statement} {c c' : Circuit}
    (h : ss.foldlM Statement.appendTo c = .ok c') : c'.qregs = c.qregs ∧ c'.cregs = c.cregs := by
  refine foldlM_ok_invariant (P := fun d => d.qregs = c.qregs ∧ d.cregs = c.cregs) ?_ h ⟨rfl, rfl⟩
  intro s _ d d' hd hregs
  rcases Statement.appendTo_eq_ok hd with rfl | ⟨ops, -, hops⟩
  · exact hregs
  · cases foldlM_append_eq_ok hops
    exact hregs

/-- With these registers declared, the statements declare the same registers and add the same
operations, or fail alike. -/
structure Alike (qregs : List (Register .quantum)) (cregs : List (Register .classical))
    (ss ss' : List Statement) : Prop where
  declared : ∀ c, ss'.foldlM Statement.declareIn c = ss.foldlM Statement.declareIn c
  operations : ∀ c : Circuit, c.qregs = qregs → c.cregs = cregs →
    bodyOperations c ss' = bodyOperations c ss
  appended : ∀ c : Circuit, c.qregs = qregs → c.cregs = cregs →
    ss'.foldlM Statement.appendTo c = ss.foldlM Statement.appendTo c

theorem bodyOperations_append (c : Circuit) (ss ts : List Statement) :
    bodyOperations c (ss ++ ts) = (do
      let ops ← bodyOperations c ss
      let more ← bodyOperations c ts
      return ops ++ more) := by
  induction ss with
  | nil =>
    rw [List.nil_append, bodyOperations, ok_bind]
    cases bodyOperations c ts <;> rfl
  | cons s rest ih => simp [bodyOperations, ih]

theorem bodyOperations_singleton (c : Circuit) (s : Statement) :
    bodyOperations c [s] = s.operations c := by
  rw [bodyOperations, bodyOperations]
  cases s.operations c <;> simp

namespace Alike

variable {qregs : List (Register .quantum)} {cregs : List (Register .classical)}
  {ss ss' ts ts' : List Statement}

theorem refl (ss : List Statement) : Alike qregs cregs ss ss :=
  ⟨fun _ => rfl, fun _ _ _ => rfl, fun _ _ _ => rfl⟩

theorem trans (h : Alike qregs cregs ss ss') (h' : Alike qregs cregs ss' ts) :
    Alike qregs cregs ss ts where
  declared c := (h'.declared c).trans (h.declared c)
  operations c hq hc := (h'.operations c hq hc).trans (h.operations c hq hc)
  appended c hq hc := (h'.appended c hq hc).trans (h.appended c hq hc)

/-- Statements alike one after the other are alike. -/
theorem append (h : Alike qregs cregs ss ss') (h' : Alike qregs cregs ts ts') :
    Alike qregs cregs (ss ++ ts) (ss' ++ ts') where
  declared c := by
    rw [List.foldlM_append, List.foldlM_append, h.declared]
    exact congrArg _ (funext h'.declared)
  operations c hq hc := by
    rw [bodyOperations_append, bodyOperations_append, h.operations c hq hc, h'.operations c hq hc]
  appended c hq hc := by
    rw [List.foldlM_append, List.foldlM_append, h.appended c hq hc]
    cases hd : ss.foldlM Statement.appendTo c with
    | error e => rfl
    | ok d =>
      obtain ⟨hq', hc'⟩ := registers_foldlM_appendTo hd
      exact h'.appended d (hq'.trans hq) (hc'.trans hc)

/-- Single statements are alike if they have the same operations. -/
theorem single {s s' : Statement} (hs : s.isDeclaration = false) (hs' : s'.isDeclaration = false)
    (h : ∀ c : Circuit, c.qregs = qregs → c.cregs = cregs → s'.operations c = s.operations c) :
    Alike qregs cregs [s] [s'] where
  declared c := by
    simp [Statement.declareIn_of_not hs, Statement.declareIn_of_not hs']
  operations c hq hc := by
    rw [bodyOperations_singleton, bodyOperations_singleton, h c hq hc]
  appended c hq hc := by
    simp [Statement.appendTo_of_not hs, Statement.appendTo_of_not hs', h c hq hc]

/-- Statements that add one operation each stand for one that adds all of them. -/
theorem each {s : Statement} {ops : List Operation} (hs : s.isDeclaration = false)
    (hops : ∀ c : Circuit, c.qregs = qregs → c.cregs = cregs → s.operations c = .ok ops)
    (heach : List.Forall₂ (fun x op => x.isDeclaration = false ∧
      ∀ c : Circuit, c.qregs = qregs → c.cregs = cregs → x.operations c = .ok [op]) ss ops) :
    Alike qregs cregs [s] ss := by
  refine ⟨fun c => ?_, fun c hq hc => ?_, fun c hq hc => ?_⟩
  · have hss : ∀ x ∈ ss, x.isDeclaration = false := by
      intro x hx
      obtain ⟨op, -, hx, -⟩ := exists_right_of_forall₂ heach hx
      exact hx
    rw [foldlM_declareIn_of_not hss, foldlM_declareIn_of_not (by simpa using hs)]
  · rw [bodyOperations_singleton, hops c hq hc]
    clear hops
    induction heach with
    | nil => rfl
    | cons hx _ ih =>
      rw [bodyOperations, hx.2 c hq hc, ih]
      rfl
  · rw [List.foldlM_cons, Statement.appendTo_of_not hs, hops c hq hc, ok_bind]
    clear hops
    -- each step checks one operation and adds it, and the registers stay the same for the next one
    induction heach generalizing c with
    | nil => rfl
    | @cons x op rest ops hx _ ih =>
      rw [List.foldlM_cons, Statement.appendTo_of_not hx.1, hx.2 c hq hc, ok_bind]
      cases hd : c.append op with
      | error e => simp [hd, liftCircuit]
      | ok d =>
        obtain ⟨-, rfl⟩ := Circuit.append_eq_ok_iff.1 hd
        have hrest := ih { c with operations := c.operations ++ [op] } hq hc
        simpa [hd, liftCircuit] using hrest

/-- A failure comes from the first statement that fails. -/
theorem failing {s s' : Statement} {e : Error} (hs : s.isDeclaration = false)
    (hss : ∀ x ∈ s' :: ss, x.isDeclaration = false)
    (h : ∀ c : Circuit, c.qregs = qregs → c.cregs = cregs →
      s.operations c = .error e ∧ s'.operations c = .error e) :
    Alike qregs cregs [s] (s' :: ss) := by
  have hs' : s'.isDeclaration = false := hss s' List.mem_cons_self
  refine ⟨fun c => ?_, fun c hq hc => ?_, fun c hq hc => ?_⟩
  · rw [foldlM_declareIn_of_not hss, foldlM_declareIn_of_not (by simpa using hs)]
  · rw [bodyOperations, bodyOperations_singleton, (h c hq hc).1, (h c hq hc).2]
    rfl
  · rw [List.foldlM_cons, List.foldlM_cons, Statement.appendTo_of_not hs,
      Statement.appendTo_of_not hs', (h c hq hc).1, (h c hq hc).2]
    rfl

/-- A gate on one qubit may be called for each operand by itself. -/
theorem separate {call : GateCall} (hcall : call.isSingle = true) {operands : List Operand}
    {bits : List Qubit} (hbits : operandBits qregs call.qubits = .ok bits)
    (hare : Operand.Are qregs operands bits) (hne : bits ≠ []) :
    Alike qregs cregs [.gate call] (operands.map fun o => .gate (call.on o)) := by
  have hwhole := GateCall.operations_of_isSingle hcall hbits hne
  have hone : ∀ o b, o.bits qregs = .ok [b] → (call.on o).operations qregs = (do
      let g ← call.singleGate
      return [.gate g [b]]) := by
    intro o b ho
    have hbit : operandBits qregs (call.on o).qubits = .ok [b] := operandBits_of_are (.cons ho .nil)
    have hsingle : (call.on o).isSingle = true := hcall
    exact GateCall.operations_of_isSingle hsingle hbit (List.cons_ne_nil b [])
  cases hg : call.singleGate with
  | ok g =>
    rw [hg] at hwhole
    have hops : ∀ c : Circuit, c.qregs = qregs → c.cregs = cregs →
        Statement.operations c (.gate call) = .ok (bits.map fun b => .gate g [b]) := by
      intro c hq _
      rw [Statement.operations, hq, hwhole]
      rfl
    refine .each rfl hops (List.forall₂_map_left_iff.2 (List.forall₂_map_right_iff.2 ?_))
    refine hare.imp fun o b ho => ⟨rfl, fun c hq _ => ?_⟩
    rw [Statement.operations, hq, hone o b ho, hg]
    rfl
  | error e =>
    rw [hg] at hwhole
    cases hare with
    | nil => exact absurd rfl hne
    | @cons o b rest bits ho _ =>
      refine .failing (e := e) rfl (by simp [Statement.isDeclaration]) fun c hq _ => ⟨?_, ?_⟩
      · rw [Statement.operations, hq, hwhole]
        rfl
      · rw [Statement.operations, hq, hone o b ho, hg]
        rfl

end Alike

/-! ## Respelling -/

/-- Statements in which, at any depth, some operands and calls are written in full. -/
inductive Respelled (qregs : List (Register .quantum)) (cregs : List (Register .classical)) :
    List Statement → List Statement → Prop where
  | refl (ss : List Statement) : Respelled qregs cregs ss ss
  | trans {ss ss' ts : List Statement} :
      Respelled qregs cregs ss ss' → Respelled qregs cregs ss' ts → Respelled qregs cregs ss ts
  | append {ss ss' ts ts' : List Statement} :
      Respelled qregs cregs ss ss' → Respelled qregs cregs ts ts' →
      Respelled qregs cregs (ss ++ ts) (ss' ++ ts')
  | gate {call : GateCall} {qubits : List Operand} : SpelledOut qregs call.qubits qubits →
      Respelled qregs cregs [.gate call] [.gate { call with qubits }]
  | separate {call : GateCall} : call.isSingle = true →
      (∀ o ∈ call.qubits, o.selects qregs = true) →
      1 < (call.qubits.flatMap (Operand.inFull qregs)).length →
      Respelled qregs cregs [.gate call]
        ((call.qubits.flatMap (Operand.inFull qregs)).map fun o => .gate (call.on o))
  | measure {qubits qubits' bits bits' : List Operand} :
      SpelledOut qregs qubits qubits' → SpelledOut cregs bits bits' →
      Respelled qregs cregs [.measure qubits bits] [.measure qubits' bits']
  | reset {qubits qubits' : List Operand} : SpelledOut qregs qubits qubits' →
      Respelled qregs cregs [.reset qubits] [.reset qubits']
  | barrier {qubits qubits' : List Operand} : SpelledOut qregs qubits qubits' →
      Respelled qregs cregs [.barrier qubits] [.barrier qubits']
  | delay {duration : Expression} {qubits qubits' : List Operand} :
      SpelledOut qregs qubits qubits' →
      Respelled qregs cregs [.delay duration qubits] [.delay duration qubits']
  | ifThen {test : Expression} {body body' : List Statement} : Respelled qregs cregs body body' →
      Respelled qregs cregs [.ifElse test body none] [.ifElse test body' none]
  | ifElse {test : Expression} {thenBody thenBody' elseBody elseBody' : List Statement} :
      Respelled qregs cregs thenBody thenBody' → Respelled qregs cregs elseBody elseBody' →
      Respelled qregs cregs [.ifElse test thenBody (some elseBody)]
        [.ifElse test thenBody' (some elseBody')]
  | whileLoop {test : Expression} {body body' : List Statement} :
      Respelled qregs cregs body body' →
      Respelled qregs cregs [.whileLoop test body] [.whileLoop test body']
  | forLoop {loopVar : String} {domain : LoopDomain} {body body' : List Statement} :
      Respelled qregs cregs body body' →
      Respelled qregs cregs [.forLoop loopVar domain body] [.forLoop loopVar domain body']

section

variable {qregs : List (Register .quantum)} {cregs : List (Register .classical)}

theorem GateCall.operations_spelledOut {call : GateCall} {qubits : List Operand}
    (h : SpelledOut qregs call.qubits qubits) :
    operations { call with qubits } qregs = call.operations qregs := by
  rw [operations, operations, h.operandBits_eq]
  rfl

theorem measureOperations_spelledOut {c : Circuit} {qubits qubits' bits bits' : List Operand}
    (h : SpelledOut c.qregs qubits qubits') (h' : SpelledOut c.cregs bits bits') :
    measureOperations c qubits' bits' = measureOperations c qubits bits := by
  have hempty : bits'.isEmpty = bits.isEmpty := by
    rw [Bool.eq_iff_iff, List.isEmpty_iff, List.isEmpty_iff, h'.eq_nil_iff]
  rw [measureOperations, measureOperations, hempty, h.operandBits_eq, h'.operandBits_eq]

theorem barrier_spelledOut {c : Circuit} {qubits qubits' : List Operand}
    (h : SpelledOut c.qregs qubits qubits') :
    Statement.operations c (.barrier qubits') = Statement.operations c (.barrier qubits) := by
  cases qubits with
  | nil => rw [h.eq_nil_iff.2 rfl]
  | cons o rest =>
    -- a barrier without operands would be for all qubits
    have hne : qubits' ≠ [] := fun hnil => List.cons_ne_nil o rest (h.eq_nil_iff.1 hnil)
    obtain ⟨o', rest', rfl⟩ := List.exists_cons_of_ne_nil hne
    rw [Statement.operations, Statement.operations, h.operandBits_eq] <;> simp

/-- Respelled statements add the same operations. -/
theorem Respelled.alike {ss ss' : List Statement} (h : Respelled qregs cregs ss ss') :
    Alike qregs cregs ss ss' := by
  induction h with
  | refl ss => exact .refl ss
  | trans _ _ ih ih' => exact ih.trans ih'
  | append _ _ ih ih' => exact ih.append ih'
  | gate hqubits =>
    refine .single rfl rfl fun c hq _ => ?_
    rw [Statement.operations, Statement.operations, hq, GateCall.operations_spelledOut hqubits]
  | separate hcall hselects hmany =>
    obtain ⟨bits, hbits, hare⟩ := are_flatMap_inFull hselects
    refine .separate hcall hbits hare ?_
    rintro rfl
    rw [hare.length_eq] at hmany
    cases hmany
  | measure hqubits hbits =>
    refine .single rfl rfl fun c hq hc => ?_
    subst hq hc
    rw [Statement.operations, Statement.operations, measureOperations_spelledOut hqubits hbits]
  | reset hqubits =>
    refine .single rfl rfl fun c hq _ => ?_
    rw [Statement.operations, Statement.operations, hq, hqubits.operandBits_eq]
  | barrier hqubits =>
    refine .single rfl rfl fun c hq _ => ?_
    subst hq
    exact barrier_spelledOut hqubits
  | delay hqubits =>
    refine .single rfl rfl fun c hq _ => ?_
    rw [Statement.operations, Statement.operations, hq, hqubits.operandBits_eq]
  | ifThen _ ih =>
    refine .single rfl rfl fun c hq hc => ?_
    rw [Statement.operations, Statement.operations, ih.operations c hq hc]
  | ifElse _ _ ihThen ihElse =>
    refine .single rfl rfl fun c hq hc => ?_
    rw [Statement.operations, Statement.operations, ihThen.operations c hq hc]
    simp only [ihElse.operations c hq hc]
  | whileLoop _ ih =>
    refine .single rfl rfl fun c hq hc => ?_
    rw [Statement.operations, Statement.operations, ih.operations c hq hc]
  | forLoop _ ih =>
    refine .single rfl rfl fun c hq hc => ?_
    rw [Statement.operations, Statement.operations, ih.operations c hq hc]

end

/-! ## Whole sources -/

structure Spelling where
  qubits : List Operand → List Operand
  bits : List Operand → List Operand
  calls : GateCall → List GateCall

namespace Statement

/-- The register of that kind that the statement declares, if it declares one. -/
def registers (kind : BitKind) : Statement → List (Register kind)
  | .declare kind' name size => if kind' = kind then [⟨name, size⟩] else []
  | _ => []

def qubitOperands : Statement → List Operand
  | .gate call => call.qubits
  | .measure qubits _ | .reset qubits | .barrier qubits | .delay _ qubits => qubits
  | _ => []

def bitOperands : Statement → List Operand
  | .measure _ bits => bits
  | _ => []

mutual

def spelled (f : Spelling) : Statement → List Statement
  | .gate call => (f.calls call).map .gate
  | .measure qubits bits => [.measure (f.qubits qubits) (f.bits bits)]
  | .reset qubits => [.reset (f.qubits qubits)]
  | .barrier qubits => [.barrier (f.qubits qubits)]
  | .delay duration qubits => [.delay duration (f.qubits qubits)]
  | .ifElse test thenBody elseBody =>
    [.ifElse test (spelledAll f thenBody) (match elseBody with
      | some body => some (spelledAll f body)
      | none => none)]
  | .whileLoop test body => [.whileLoop test (spelledAll f body)]
  | .forLoop loopVar domain body => [.forLoop loopVar domain (spelledAll f body)]
  | s => [s]

def spelledAll (f : Spelling) : List Statement → List Statement
  | [] => []
  | s :: rest => spelled f s ++ spelledAll f rest

end

end Statement

namespace Spelling

def operandsInFull (qregs : List (Register .quantum)) (cregs : List (Register .classical)) :
    Spelling where
  qubits operands := operands.flatMap (Operand.inFull qregs)
  bits operands := operands.flatMap (Operand.inFull cregs)
  calls call := [{ call with qubits := call.qubits.flatMap (Operand.inFull qregs) }]

def callsInFull (qregs : List (Register .quantum)) : Spelling where
  qubits := id
  bits := id
  calls call :=
    let operands := call.qubits.flatMap (Operand.inFull qregs)
    if call.isSingle ∧ 1 < operands.length then operands.map call.on else [call]

/-- The spelling writes some operands and calls in full and changes nothing else. -/
structure Respells (f : Spelling) (qregs : List (Register .quantum))
    (cregs : List (Register .classical)) : Prop where
  qubits : ∀ operands : List Operand, (∀ o ∈ operands, o.selects qregs = true) →
    SpelledOut qregs operands (f.qubits operands)
  bits : ∀ operands : List Operand, (∀ o ∈ operands, o.selects cregs = true) →
    SpelledOut cregs operands (f.bits operands)
  calls : ∀ call : GateCall, (∀ o ∈ call.qubits, o.selects qregs = true) →
    Respelled qregs cregs [.gate call] ((f.calls call).map .gate)

variable {qregs : List (Register .quantum)} {cregs : List (Register .classical)}

theorem respells_operandsInFull : (operandsInFull qregs cregs).Respells qregs cregs where
  qubits _ h := .flatMap h
  bits _ h := .flatMap h
  calls _ h := .gate (.flatMap h)

theorem respells_callsInFull : (callsInFull qregs).Respells qregs cregs where
  qubits operands _ := .refl operands
  bits operands _ := .refl operands
  calls call h := by
    simp only [callsInFull]
    split
    · rename_i hmany
      rw [List.map_map]
      exact .separate hmany.1 h hmany.2
    · exact .refl _

end Spelling

/-- The operands of a statement select declared bits. -/
def Statement.Selects (qregs : List (Register .quantum)) (cregs : List (Register .classical))
    (s : Statement) : Prop :=
  (∀ o ∈ s.qubitOperands, o.selects qregs = true) ∧ ∀ o ∈ s.bitOperands, o.selects cregs = true

/-- A spelling that only writes in full does so at every depth. -/
theorem respelled_spelled {qregs : List (Register .quantum)} {cregs : List (Register .classical)}
    {f : Spelling} (hf : f.Respells qregs cregs) :
    (∀ s : Statement, (∀ x ∈ s.nodes, x.Selects qregs cregs) →
      Respelled qregs cregs [s] (s.spelled f)) ∧
    ∀ ss : List Statement, (∀ x ∈ Statement.nodesAll ss, x.Selects qregs cregs) →
      Respelled qregs cregs ss (Statement.spelledAll f ss) := by
  apply Statement.induction
  case includeFile => exact fun path _ => .refl _
  case declare => exact fun kind name size _ => .refl _
  case gate => exact fun call h => hf.calls call (h _ List.mem_cons_self).1
  case measure =>
    intro qubits bits h
    obtain ⟨hqubits, hbits⟩ := h _ List.mem_cons_self
    exact .measure (hf.qubits qubits hqubits) (hf.bits bits hbits)
  case reset => exact fun qubits h => .reset (hf.qubits qubits (h _ List.mem_cons_self).1)
  case barrier => exact fun qubits h => .barrier (hf.qubits qubits (h _ List.mem_cons_self).1)
  case delay => exact fun duration qubits h => .delay (hf.qubits qubits (h _ List.mem_cons_self).1)
  case ifThen =>
    intro test thenBody ih h
    simp only [Statement.nodes, List.forall_mem_cons, List.append_nil] at h
    exact .ifThen (ih h.2)
  case ifElse =>
    intro test thenBody elseBody ihThen ihElse h
    simp only [Statement.nodes, List.forall_mem_cons, List.forall_mem_append] at h
    exact .ifElse (ihThen h.2.1) (ihElse h.2.2)
  case whileLoop =>
    intro test body ih h
    simp only [Statement.nodes, List.forall_mem_cons] at h
    exact .whileLoop (ih h.2)
  case forLoop =>
    intro loopVar domain body ih h
    simp only [Statement.nodes, List.forall_mem_cons] at h
    exact .forLoop (ih h.2)
  case nil => exact fun _ => .refl []
  case cons =>
    intro s rest ihHead ihRest h
    rw [Statement.nodesAll, List.forall_mem_append] at h
    exact .append (ihHead h.1) (ihRest h.2)

namespace Script

def registers (s : Script) (kind : BitKind) : List (Register kind) :=
  s.statements.flatMap (Statement.registers kind)

/-- Every operand of the source is for a declared register of its kind, stays inside it and selects at
least one bit. -/
def Selects (s : Script) : Prop :=
  ∀ x ∈ s.nodes, x.Selects (s.registers .quantum) (s.registers .classical)

def spelled (s : Script) (f : Spelling) : Script :=
  { s with statements := Statement.spelledAll f s.statements }

def operandsInFull (s : Script) : Script :=
  s.spelled (.operandsInFull (s.registers .quantum) (s.registers .classical))

def callsInFull (s : Script) : Script := s.spelled (.callsInFull (s.registers .quantum))

theorem registers_declareIn {st : Statement} {c d : Circuit} (h : st.declareIn c = .ok d) :
    d.qregs = c.qregs ++ st.registers .quantum ∧
      d.cregs = c.cregs ++ st.registers .classical := by
  rcases Statement.declareIn_eq_ok h with ⟨_, _, rfl, -, -, rfl⟩ | ⟨_, _, rfl, -, -, rfl⟩ | ⟨hst, rfl⟩
  · simp [Statement.registers]
  · simp [Statement.registers]
  · cases st with
    | declare kind name size => exact absurd rfl (hst kind name size)
    | _ => simp [Statement.registers]

/-- The declarations of a source give the circuit its registers. -/
theorem registers_foldlM_declareIn {ss : List Statement} {c d : Circuit}
    (h : ss.foldlM Statement.declareIn c = .ok d) :
    d.qregs = c.qregs ++ ss.flatMap (Statement.registers .quantum) ∧
      d.cregs = c.cregs ++ ss.flatMap (Statement.registers .classical) := by
  induction ss generalizing c with
  | nil =>
    cases h
    simp
  | cons st rest ih =>
    rw [List.foldlM_cons] at h
    obtain ⟨c', hc', h⟩ := bind_eq_ok_iff.1 h
    obtain ⟨hq, hc⟩ := registers_declareIn hc'
    obtain ⟨hq', hc'⟩ := ih h
    rw [hq', hc', hq, hc, List.append_assoc, List.append_assoc, List.flatMap_cons, List.flatMap_cons]
    exact ⟨rfl, rfl⟩

/-- Sources whose statements are alike have the same circuit. -/
theorem circuit_eq_of_alike {s s' : Script}
    (h : Alike (s.registers .quantum) (s.registers .classical) s.statements s'.statements) :
    s'.circuit = s.circuit := by
  rw [circuit, circuit, h.declared]
  cases hd : s.statements.foldlM Statement.declareIn (Circuit.empty "qasm_circuit") with
  | error e => rfl
  | ok d =>
    obtain ⟨hq, hc⟩ := registers_foldlM_declareIn hd
    exact h.appended d hq hc

theorem circuit_spelled {s : Script} (hs : s.Selects) {f : Spelling}
    (hf : f.Respells (s.registers .quantum) (s.registers .classical)) :
    (s.spelled f).circuit = s.circuit :=
  circuit_eq_of_alike ((respelled_spelled hf).2 s.statements hs).alike

end Script

/-- Writing operands and calls of gates on one qubit in full, all of them or only some, leaves the
circuit of a source, or the reason why it has none, as it was. -/
theorem writing_in_full_keeps_circuits {s : Script} (h : s.Selects) :
    s.operandsInFull.circuit = s.circuit ∧ s.callsInFull.circuit = s.circuit ∧
      ∀ ss, Respelled (s.registers .quantum) (s.registers .classical) s.statements ss →
        Script.circuit { s with statements := ss } = s.circuit :=
  ⟨Script.circuit_spelled h Spelling.respells_operandsInFull,
    Script.circuit_spelled h Spelling.respells_callsInFull,
    fun _ hss => Script.circuit_eq_of_alike hss.alike⟩

/-- Three qubits are turned in a loop, and two of them measured. -/
def turnedInLoop : Script where
  version := "3.0"
  statements :=
    [.declare .quantum "q" 3, .declare .classical "c" 2,
      .forLoop "i" (.values [.int 0, .int 1]) [.gate ⟨"H", [], [⟨"q", .all⟩], []⟩],
      .measure [⟨"q", .slice 1 2⟩] [⟨"c", .all⟩]]

theorem writing_in_full_keeps_circuits_turnedInLoop :
    turnedInLoop.Selects ∧
    turnedInLoop.operandsInFull.statements =
      [.declare .quantum "q" 3, .declare .classical "c" 2,
        .forLoop "i" (.values [.int 0, .int 1])
          [.gate ⟨"H", [], [⟨"q", .index 0⟩, ⟨"q", .index 1⟩, ⟨"q", .index 2⟩], []⟩],
        .measure [⟨"q", .index 1⟩, ⟨"q", .index 2⟩] [⟨"c", .index 0⟩, ⟨"c", .index 1⟩]] ∧
    turnedInLoop.callsInFull.statements =
      [.declare .quantum "q" 3, .declare .classical "c" 2,
        .forLoop "i" (.values [.int 0, .int 1])
          [.gate ⟨"H", [], [⟨"q", .index 0⟩], []⟩, .gate ⟨"H", [], [⟨"q", .index 1⟩], []⟩,
            .gate ⟨"H", [], [⟨"q", .index 2⟩], []⟩],
        .measure [⟨"q", .slice 1 2⟩] [⟨"c", .all⟩]] ∧
    turnedInLoop.operandsInFull.circuit = turnedInLoop.circuit ∧
    turnedInLoop.callsInFull.circuit = turnedInLoop.circuit := by
  have hselects : turnedInLoop.Selects := by
    simp [Script.Selects, Script.nodes, turnedInLoop, Statement.nodesAll, Statement.nodes,
      Statement.Selects, Statement.qubitOperands, Statement.bitOperands, Operand.selects,
      Script.registers, Statement.registers, findRegister?]
  have hsingle : GateCall.isSingle ⟨"H", [], [⟨"q", .all⟩], []⟩ = true := by decide +kernel
  obtain ⟨hoperands, hcalls, -⟩ := writing_in_full_keeps_circuits hselects
  refine ⟨hselects, rfl, ?_, hoperands, hcalls⟩
  simp [Script.callsInFull, Script.spelled, turnedInLoop, Statement.spelledAll, Statement.spelled,
    Spelling.callsInFull, hsingle, Script.registers, Statement.registers, Operand.inFull,
    findRegister?, Selection.places, GateCall.on, List.range_succ]

end CircuitCalls.Qasm
