import CircuitCalls.Circuit.Build
import CircuitCalls.Proofs.Registers
import CircuitCalls.Proofs.Validity

/-!
# Circuits that are built are valid

A builder is called on a circuit in place: a call may look at the circuit, change it and fail, in this
order or in any other. The bodies of conditionals and loops are filled by calls on a draft of their own,
which knows no registers and checks nothing. What fills a body may be any computation on a draft: it may
drop the errors of its own calls, and it may fail with an error of its own.

Whatever is called, a circuit is changed at most once and only after the last check (`perform_eq`). So a
call that fails leaves the circuit as it was, and a circuit that was valid stays valid
(`building_is_valid_and_atomic`). The steps of `Step` are such calls (`perform_call_eq_step`).
-/

namespace CircuitCalls

/-! ## Calls on a state -/

/-- A computation on what is being built. One that fails leaves the state that it has reached. -/
abbrev Building (σ : Type) := EStateM CircuitError σ

/-- What operations can be added to. -/
class Builder (σ : Type) where
  append : Operation → Building σ Unit

/-- A body that is being filled. -/
structure Draft where
  operations : List Operation

def Draft.add (op : Operation) : Building Draft Unit := modify fun d => ⟨d.operations ++ [op]⟩

/-- A circuit checks an operation first, as its `append` does. -/
def Circuit.add (op : Operation) : Building Circuit Unit := do
  let c ← get
  MonadExcept.ofExcept (c.check op)
  modify fun c => { c with operations := c.operations ++ [op] }

instance : Builder Draft := ⟨Draft.add⟩

instance : Builder Circuit := ⟨Circuit.add⟩

/-- A call of a builder, for a circuit or for a draft. -/
inductive BuilderCall where
  | append (op : Operation)
  | manyControlledX (controls : List Qubit) (target : Qubit)
  | control (gate : Gate) (controls : UInt32) (mask : Option UInt64) (qubits : List Qubit)
  | measure (qubits : List Qubit) (clbits : List Clbit)
  | ifElse (condition : Condition) (fillThen : Building Draft Unit)
      (fillElse : Option (Building Draft Unit))
  | whileLoop (condition : Condition) (fill : Building Draft Unit)
  | forLoop (source : LoopSource) (loopVar : Option String) (fill : Building Draft Unit)

/-- A call on a circuit; only a circuit has registers. -/
inductive CircuitCall where
  | addQreg (name : String) (size : UInt32)
  | addCreg (name : String) (size : UInt32)
  | build (call : BuilderCall)

/-- The operations of a body that starts out empty. -/
def Draft.filled (fill : Building Draft Unit) : Except CircuitError (List Operation) :=
  match fill ⟨[]⟩ with
  | .ok () d => .ok d.operations
  | .error e _ => .error e

namespace BuilderCall

def operation : BuilderCall → Except CircuitError Operation
  | append op => .ok op
  | manyControlledX controls target => do
    let g ← (Gate.fixed .x).control (UInt32.ofNatClamp controls.length) none
    return .gate (g.withLabel "mcx") (controls ++ [target])
  | control g controls mask qubits => do
    let g ← g.control controls mask
    return .gate g qubits
  | measure qubits clbits => Operation.measureInto qubits clbits
  | ifElse condition fillThen fillElse => do
    let thenBody ← Draft.filled fillThen
    match fillElse with
    | some fillElse =>
      let elseBody ← Draft.filled fillElse
      return .ifElse condition thenBody (some elseBody)
    | none => return .ifElse condition thenBody none
  | whileLoop condition fill => do
    let body ← Draft.filled fill
    return .whileLoop condition body
  | forLoop source loopVar fill => do
    let iteration ← source.iteration
    let body ← Draft.filled fill
    return .forLoop iteration loopVar body

def perform {σ : Type} [Builder σ] (call : BuilderCall) : Building σ Unit := do
  let op ← MonadExcept.ofExcept call.operation
  Builder.append op

end BuilderCall

/-- Carries out a call on a circuit. -/
def CircuitCall.perform : CircuitCall → Building Circuit Unit
  | addQreg name size => do
    let c ← get
    if (c.qreg? name).isSome then throw (.duplicateRegister name)
    modify fun c => { c with qregs := c.qregs ++ [⟨name, size⟩] }
  | addCreg name size => do
    let c ← get
    if (c.creg? name).isSome then throw (.duplicateRegister name)
    modify fun c => { c with cregs := c.cregs ++ [⟨name, size⟩] }
  | build call => call.perform

/-- The state that a computation leaves, whether or not it fails. -/
def stateAfter {ε σ α : Type} : EStateM.Result ε σ α → σ
  | .ok _ s => s
  | .error _ s => s

/-- The circuit after a run of calls. A call that fails does not end the run. -/
def Circuit.after (c : Circuit) (calls : List CircuitCall) : Circuit :=
  calls.foldl (fun c call => stateAfter (call.perform c)) c

/-! ## Calls as steps -/

/-- The outcome of a step that either gives the next state or does nothing. -/
def outcome {σ : Type} (s : σ) : Except CircuitError σ → EStateM.Result CircuitError σ Unit
  | .ok s' => .ok () s'
  | .error e => .error e s

/-- The circuit that a call gives, if it succeeds. -/
def CircuitCall.result (c : Circuit) : CircuitCall → Except CircuitError Circuit
  | addQreg name size => c.addQreg name size
  | addCreg name size => c.addCreg name size
  | build call => do
    let op ← call.operation
    c.append op

theorem get_bind {σ β : Type} (f : σ → Building σ β) (s : σ) : (get >>= f) s = f s s := rfl

theorem add_circuit_eq (op : Operation) (c : Circuit) :
    Circuit.add op c = outcome c (c.append op) := by
  rw [Circuit.append, Circuit.add, get_bind]
  cases c.check op with
  | ok u => rfl
  | error e => rfl

/-- A call changes a circuit at most once, after everything that may fail. -/
theorem CircuitCall.perform_eq (call : CircuitCall) (c : Circuit) :
    call.perform c = outcome c (call.result c) := by
  cases call with
  | addQreg name size =>
    rw [perform, get_bind, result, Circuit.addQreg]
    split <;> rfl
  | addCreg name size =>
    rw [perform, get_bind, result, Circuit.addCreg]
    split <;> rfl
  | build call =>
    rw [perform, BuilderCall.perform, result]
    cases call.operation with
    | ok op => exact add_circuit_eq op c
    | error e => rfl

/-! ## Steps as calls -/

/-- What fills a draft adds these operations to any draft, or fails with this error. -/
structure Fills (fill : Building Draft Unit) (x : Except CircuitError (List Operation)) : Prop where
  ok : ∀ ops, x = .ok ops → ∀ d : Draft, fill d = .ok () ⟨d.operations ++ ops⟩
  error : ∀ e, x = .error e → ∀ d, ∃ d', fill d = .error e d'

namespace Fills

theorem filled {fill : Building Draft Unit} {x : Except CircuitError (List Operation)}
    (h : Fills fill x) : Draft.filled fill = x := by
  cases x with
  | ok ops => simp [Draft.filled, h.ok ops rfl]
  | error e =>
    obtain ⟨d', hd'⟩ := h.error e rfl ⟨[]⟩
    rw [Draft.filled, hd']

theorem nil : Fills (pure ()) (.ok []) where
  ok := by
    intro ops h d
    cases h
    rw [List.append_nil]
    rfl
  error := by
    intro e h
    cases h

/-- A call in front adds its operation, or fails before the rest is tried. -/
theorem cons {call : BuilderCall} {fill : Building Draft Unit}
    {x : Except CircuitError (List Operation)} (h : Fills fill x) :
    Fills (call.perform >>= fun _ => fill)
      (call.operation >>= fun op => x >>= fun ops => .ok (op :: ops)) := by
  cases hop : call.operation with
  | error e =>
    refine ⟨?_, ?_⟩
    · intro ops hops
      cases hops
    · intro e' he d
      cases he
      exact ⟨d, by rw [BuilderCall.perform, hop]; rfl⟩
  | ok op =>
    have hrun : ∀ d : Draft, (call.perform >>= fun _ => fill) d = fill ⟨d.operations ++ [op]⟩ := by
      intro d
      rw [BuilderCall.perform, hop]
      rfl
    rw [ok_bind]
    refine ⟨?_, ?_⟩
    · intro ops hops d
      obtain ⟨more, hmore, hops⟩ := bind_eq_ok_iff.1 hops
      cases hops
      rw [hrun, h.ok more hmore, List.append_assoc]
      rfl
    · intro e he d
      rcases bind_eq_error_iff.1 he with he | ⟨more, -, he⟩
      · rw [hrun]
        exact h.error e he _
      · cases he

end Fills

namespace Step

mutual

def call : Step → BuilderCall
  | append op => .append op
  | manyControlledX controls target => .manyControlledX controls target
  | control gate controls mask qubits => .control gate controls mask qubits
  | measure qubits clbits => .measure qubits clbits
  | ifElse condition thenSteps elseSteps =>
    .ifElse condition (fill thenSteps) (match elseSteps with
      | some steps => some (fill steps)
      | none => none)
  | whileLoop condition body => .whileLoop condition (fill body)
  | forLoop source loopVar body => .forLoop source loopVar (fill body)

/-- Makes the calls of steps until one of them fails. -/
def fill : List Step → Building Draft Unit
  | [] => pure ()
  | step :: rest => do
    step.call.perform
    fill rest

end

mutual

/-- A step and the call that it makes add the same operation, at any depth of nested bodies. -/
theorem operation_call : ∀ s : Step, s.call.operation = s.operation
  | append op => rfl
  | manyControlledX controls target => rfl
  | control gate controls mask qubits => rfl
  | measure qubits clbits => rfl
  | ifElse condition thenSteps none => by
    rw [call, BuilderCall.operation, operation, (fills_fill thenSteps).filled]
  | ifElse condition thenSteps (some elseSteps) => by
    have helse := (fills_fill elseSteps).filled
    simp only [call, BuilderCall.operation, operation, (fills_fill thenSteps).filled, helse]
  | whileLoop condition body => by
    rw [call, BuilderCall.operation, operation, (fills_fill body).filled]
  | forLoop source loopVar body => by
    rw [call, BuilderCall.operation, operation, (fills_fill body).filled]

theorem fills_fill : ∀ steps : List Step, Fills (fill steps) (operations steps)
  | [] => by
    rw [fill, operations]
    exact .nil
  | step :: rest => by
    rw [fill, operations, ← operation_call step]
    exact .cons (fills_fill rest)

end

end Step

/-- A step is taken by its call. -/
theorem perform_call_eq_step (s : Step) (c : Circuit) :
    (CircuitCall.build s.call).perform c = outcome c (c.step s) := by
  rw [CircuitCall.perform_eq, CircuitCall.result, s.operation_call, Circuit.step]

/-! ## What calls keep -/

namespace Circuit

/-- What is declared only becomes more, so an operation that was admitted still is. -/
theorem Admits.mono {c c' : Circuit} {op : Operation} (h : c.Admits op)
    (hqubits : ∀ q, c.hasQubit q = true → c'.hasQubit q = true)
    (hclbits : ∀ b, c.hasClbit b = true → c'.hasClbit b = true)
    (hcregs : ∀ name, (c.creg? name).isSome = true → (c'.creg? name).isSome = true) :
    c'.Admits op := by
  have htarget : ∀ target, c.Declares target → c'.Declares target := by
    intro target
    cases target with
    | bit b => exact hclbits b
    | register name => exact hcregs name
  have hoperands : ∀ {qubits}, c.AdmitsQubits qubits → c'.AdmitsQubits qubits :=
    fun hq => ⟨fun q hmem => hqubits q (hq.1 q hmem), hq.2⟩
  cases op with
  | gate g qubits => exact ⟨hoperands h.1, h.2⟩
  | measure qubits clbits => exact ⟨h.1, hoperands h.2.1, fun b hb => hclbits b (h.2.2 b hb)⟩
  | ifElse condition thenBody elseBody => exact htarget _ h
  | whileLoop condition body => exact htarget _ h
  | forLoop iteration loopVar body => exact h
  | directive d qubits => exact hoperands h

/-- Valid, with registers of different names. -/
structure Sound (c : Circuit) : Prop where
  names : c.DistinctNames
  valid : c.validate = .ok ()

theorem sound_empty (name : String) : (empty name).Sound :=
  ⟨⟨List.nodup_nil, List.nodup_nil⟩, rfl⟩

theorem sound_withSize (name : String) (qubits clbits : UInt32) :
    (withSize name qubits clbits).Sound := by
  refine ⟨⟨?_, ?_⟩, rfl⟩
  · by_cases h : qubits = 0 <;> simp [withSize, h]
  · by_cases h : clbits = 0 <;> simp [withSize, h]

/-- The register may bring new bits, which takes nothing from what was declared before. -/
theorem sound_addQreg {c c' : Circuit} {name : String} {size : UInt32} (hc : c.Sound)
    (h : c.addQreg name size = .ok c') : c'.Sound := by
  rw [addQreg] at h
  split at h
  · cases h
  · rename_i hnew
    cases h
    refine ⟨⟨Register.nodup_names_append hc.names.quantum ?_, hc.names.classical⟩, ?_⟩
    · exact Option.not_isSome_iff_eq_none.1 hnew
    · rw [validate_eq_ok_iff]
      intro op hop
      refine (validate_eq_ok_iff.1 hc.valid op hop).mono ?_ (fun _ h => h) (fun _ h => h)
      intro q hq
      rw [hasQubit, List.any_append]
      exact Bool.or_eq_true_iff.2 (Or.inl hq)

theorem sound_addCreg {c c' : Circuit} {name : String} {size : UInt32} (hc : c.Sound)
    (h : c.addCreg name size = .ok c') : c'.Sound := by
  rw [addCreg] at h
  split at h
  · cases h
  · rename_i hnew
    cases h
    refine ⟨⟨hc.names.quantum, Register.nodup_names_append hc.names.classical ?_⟩, ?_⟩
    · exact Option.not_isSome_iff_eq_none.1 hnew
    · rw [validate_eq_ok_iff]
      intro op hop
      refine (validate_eq_ok_iff.1 hc.valid op hop).mono (fun _ h => h) ?_ ?_
      · intro b hb
        rw [hasClbit, List.any_append]
        exact Bool.or_eq_true_iff.2 (Or.inl hb)
      · intro n hn
        rw [creg?, findRegister?, List.find?_append]
        simp [show (c.cregs.find? (·.name == n)).isSome = true from hn]

theorem sound_append {c c' : Circuit} {op : Operation} (hc : c.Sound) (h : c.append op = .ok c') :
    c'.Sound := by
  refine ⟨?_, validate_append h hc.valid⟩
  obtain ⟨-, rfl⟩ := append_eq_ok_iff.1 h
  exact ⟨hc.names.quantum, hc.names.classical⟩

end Circuit

theorem CircuitCall.sound_result {call : CircuitCall} {c c' : Circuit} (hc : c.Sound)
    (h : call.result c = .ok c') : c'.Sound := by
  cases call with
  | addQreg name size => exact Circuit.sound_addQreg hc h
  | addCreg name size => exact Circuit.sound_addCreg hc h
  | build call =>
    obtain ⟨op, -, h⟩ := bind_eq_ok_iff.1 h
    exact Circuit.sound_append hc h

theorem CircuitCall.sound_perform (call : CircuitCall) {c : Circuit} (hc : c.Sound) :
    (stateAfter (call.perform c)).Sound := by
  rw [call.perform_eq]
  cases h : call.result c with
  | ok c' => exact sound_result hc h
  | error e => exact hc

/-- A circuit that is sound at the start of a run is so at its end. -/
theorem Circuit.sound_after {c : Circuit} (hc : c.Sound) (calls : List CircuitCall) :
    (c.after calls).Sound := by
  induction calls generalizing c with
  | nil => exact hc
  | cons call rest ih => exact ih (call.sound_perform hc)

theorem CircuitCall.state_of_error {call : CircuitCall} {c c' : Circuit} {e : CircuitError}
    (h : call.perform c = .error e c') : c' = c := by
  rw [call.perform_eq] at h
  cases hr : call.result c with
  | ok c'' =>
    rw [hr] at h
    cases h
  | error e' =>
    rw [hr] at h
    cases h
    rfl

/-- **Building is valid and atomic.** After any run of calls on a new circuit its registers have
different names and it is valid, a call that fails from there leaves it as it is, and a step is such a
call. -/
theorem building_is_valid_and_atomic {start : Circuit} {name : String} {qubits clbits : UInt32}
    (hstart : start = .empty name ∨ start = .withSize name qubits clbits)
    (calls : List CircuitCall) :
    ((start.after calls).qregs.map (·.name)).Nodup ∧
    ((start.after calls).cregs.map (·.name)).Nodup ∧
    (start.after calls).validate = .ok () ∧
    (∀ call e c', CircuitCall.perform call (start.after calls) = .error e c' →
      c' = start.after calls) ∧
    ∀ s : Step, (CircuitCall.build s.call).perform (start.after calls) =
      outcome (start.after calls) ((start.after calls).step s) := by
  have hsound : start.Sound := by
    rcases hstart with rfl | rfl
    · exact Circuit.sound_empty name
    · exact Circuit.sound_withSize name qubits clbits
  obtain ⟨hnames, hvalid⟩ := Circuit.sound_after hsound calls
  refine ⟨hnames.quantum, hnames.classical, hvalid, ?_, ?_⟩
  · intro call e c' h
    exact CircuitCall.state_of_error h
  · intro s
    exact perform_call_eq_step s _

/-- Calls of which the first, the third and the last fail: a name is taken, a body gives up after its first
operation, and a mask does not fit. -/
def mixedCalls : List CircuitCall :=
  [.addQreg "q" 1,
   .addQreg "r" 1,
   .build (.whileLoop ⟨.bit ⟨"c", 0⟩, 1⟩ do
     Draft.add (.gate (.fixed .x) [⟨"q", 0⟩])
     throw .zeroStep),
   .build (.ifElse ⟨.register "c", 1⟩ (Draft.add (.gate (.fixed .cx) [⟨"q", 1⟩, ⟨"r", 0⟩]))
     (some (pure ()))),
   .build (.control (.fixed .h) 1 (some 2) [⟨"q", 0⟩, ⟨"q", 1⟩])]

theorem building_is_valid_and_atomic_mixedCalls :
    let c := (Circuit.withSize "built" 2 1).after mixedCalls
    c.qregs.map (·.name) = ["q", "r"] ∧ c.operations.length = 1 ∧ c.validate = .ok () ∧
      ∃ c', CircuitCall.perform (.build (.append (.gate (.fixed .x) [⟨"s", 0⟩]))) c =
        .error (.qubitNotFound ⟨"s", 0⟩ (some "x")) c' ∧ c' = c := by
  intro c
  obtain ⟨-, -, hvalid, hatomic, -⟩ :=
    @building_is_valid_and_atomic (.withSize "built" 2 1) "built" 2 1 (Or.inr rfl) mixedCalls
  refine ⟨rfl, rfl, hvalid, _, rfl, ?_⟩
  exact hatomic (.build (.append (.gate (.fixed .x) [⟨"s", 0⟩]))) _ _ rfl

end CircuitCalls
