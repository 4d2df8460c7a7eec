import CircuitCalls.Proofs.Paths
import CircuitCalls.Proofs.Validity

/-!
# Which error a validation ends with

What a circuit asks of an operation is a list of requirements in a fixed order, each with the error that
reports it (`Circuit.requirements`). The checks of an operation go through its list and end at the first
requirement that is not met (`checkOwn_eq_forM`), and those of a circuit go through its operations in document
order. A validation therefore fails exactly if some operation at some depth is not well-formed, and its error
is the first one of the first such operation (`validation_reports_first_violation`).
-/

namespace CircuitCalls

/-! ## Requirements -/

/-- Something that is met or not, and the error that reports that it is not. -/
structure Requirement where
  met : Bool
  error : CircuitError

namespace Requirement

def check (r : Requirement) : Except CircuitError Unit := if r.met then .ok () else .error r.error

/-- The error of the first requirement that is not met. -/
def firstUnmet? (requirements : List Requirement) : Option CircuitError :=
  (requirements.find? (!·.met)).map (·.error)

variable {requirements : List Requirement}

theorem check_eq_ok_iff {r : Requirement} : r.check = .ok () ↔ r.met = true := by
  unfold check
  by_cases h : r.met = true <;> simp [h]

theorem check_eq_error_iff {r : Requirement} {e : CircuitError} :
    r.check = .error e ↔ r.met = false ∧ r.error = e := by
  unfold check
  by_cases h : r.met = true <;> simp [h]

theorem forM_check_eq_error_iff {e : CircuitError} :
    forM requirements check = .error e ↔ firstUnmet? requirements = some e := by
  simp only [forM_eq_error_iff, check_eq_ok_iff, check_eq_error_iff, firstUnmet?, Option.map_eq_some_iff,
    List.find?_eq_some_iff_append, Bool.not_eq_true', Bool.not_eq_false']
  constructor
  · rintro ⟨before, r, after, hsplit, hbefore, hr, rfl⟩
    exact ⟨r, ⟨hr, before, after, hsplit, hbefore⟩, rfl⟩
  · rintro ⟨r, ⟨hr, before, after, hsplit, hbefore⟩, rfl⟩
    exact ⟨before, r, after, hsplit, hbefore, hr, rfl⟩

theorem forM_check_eq_ok_iff :
    forM requirements check = .ok () ↔ firstUnmet? requirements = none := by
  simp [forM_eq_ok_iff, check_eq_ok_iff, firstUnmet?]

end Requirement

namespace Gate

/-- The wrappers around the innermost gate, each with its number of controls and its mask, the outermost
first. -/
def wrappers : Gate → List (UInt32 × Option UInt64)
  | controlled _ controls mask base _ => (controls, mask) :: base.wrappers
  | _ => []

def MasksFit (g : Gate) : Prop := ∀ wrapper ∈ g.wrappers, MaskFits wrapper.1 wrapper.2

/-- What is asked of a wrapper. -/
def wrapperRequirements (wrapper : UInt32 × Option UInt64) : List Requirement :=
  wrapper.2.toList.flatMap fun mask =>
    [⟨wrapper.1.toNat ≤ 64, .controlStateTooWide wrapper.1⟩,
      ⟨mask.toNat < 1 <<< wrapper.1.toNat, .invalidControlState mask wrapper.1⟩]

theorem checkMask_eq_forM (mask : UInt64) (controls : UInt32) :
    checkMask mask controls = forM (wrapperRequirements (controls, some mask)) Requirement.check := by
  have hwide : 64 < controls ↔ ¬ controls.toNat ≤ 64 := UInt32.lt_iff_toNat_lt.trans Nat.not_le.symm
  have hvalue : 1 <<< controls.toNat ≤ mask.toNat ↔ ¬ mask.toNat < 1 <<< controls.toNat := Nat.not_lt.symm
  simp only [checkMask, wrapperRequirements, hwide, hvalue, Option.toList_some, List.flatMap_singleton]
  by_cases h : controls.toNat ≤ 64
  · by_cases hfits : mask.toNat < 1 <<< controls.toNat <;> simp [Requirement.check, h, hfits]
  · simp [Requirement.check, h]

theorem checkMasks_eq_forM (g : Gate) :
    g.checkMasks = forM (g.wrappers.flatMap wrapperRequirements) Requirement.check := by
  induction g with
  | standard s label => rfl
  | custom u label => rfl
  | controlled name controls mask base label ih =>
    rw [wrappers, List.flatMap_cons, List.forM_append, ← ih]
    cases mask with
    | none => rfl
    | some mask => rw [checkMasks, checkMask_eq_forM]

theorem checkMasks_eq_ok_iff {g : Gate} : g.checkMasks = .ok () ↔ g.MasksFit := by
  induction g with
  | standard s label => simp [checkMasks, MasksFit, wrappers]
  | custom u label => simp [checkMasks, MasksFit, wrappers]
  | controlled name controls mask base label ih =>
    rw [MasksFit, wrappers, List.forall_mem_cons, ← MasksFit, ← ih]
    cases mask with
    | none => simp [checkMasks, MaskFits]
    | some mask => simp [checkMasks, seq_eq_ok_iff, checkMask_eq_ok_iff, MaskFits]

end Gate

namespace Circuit

variable {c : Circuit}

/-- What is asked of the operand of `qubits` at a place. -/
def operandRequirements (c : Circuit) (context : Option String) (qubits : List Qubit)
    (operand : Qubit × Nat) : List Requirement :=
  [⟨c.hasQubit operand.1, .qubitNotFound operand.1 context⟩,
    ⟨!(qubits.take operand.2).contains operand.1, .duplicateQubit operand.1 context⟩]

def qubitRequirements (c : Circuit) (context : Option String) (qubits : List Qubit) : List Requirement :=
  qubits.zipIdx.flatMap (c.operandRequirements context qubits)

def clbitRequirements (c : Circuit) (clbits : List Clbit) : List Requirement :=
  clbits.map fun b => ⟨c.hasClbit b, .clbitNotFound b⟩

def targetRequirement (c : Circuit) : ConditionTarget → Requirement
  | .bit b => ⟨c.hasClbit b, .clbitNotFound b⟩
  | .register name => ⟨(c.creg? name).isSome, .registerNotFound name⟩

def iterationRequirements : Iteration → List Requirement
  | .range _ _ step => [⟨step != 0, .zeroStep⟩]
  | .values _ => []
  | .count _ => []

/-- What is asked of an operation, apart from those inside it, in the order of the checks. -/
def requirements (c : Circuit) : Operation → List Requirement
  | .gate g qubits =>
    c.qubitRequirements (some g.name) qubits ++
      ⟨g.arity == qubits.length, .qubitCountMismatch g.name g.arity qubits.length⟩ ::
      g.wrappers.flatMap Gate.wrapperRequirements
  | .measure qubits clbits =>
    ⟨qubits.length == clbits.length, .measureArityMismatch qubits.length clbits.length⟩ ::
      (c.qubitRequirements none qubits ++ c.clbitRequirements clbits)
  | .ifElse condition _ _ => [c.targetRequirement condition.target]
  | .whileLoop condition _ => [c.targetRequirement condition.target]
  | .forLoop iteration _ _ => iterationRequirements iteration
  | .directive d qubits => c.qubitRequirements (some d.name) qubits

/-- The first error of an operation, apart from those inside it. -/
def violation? (c : Circuit) (op : Operation) : Option CircuitError :=
  Requirement.firstUnmet? (c.requirements op)

/-! ## Checks go through the requirements -/

/-- The checks of operands behind others that have been seen. -/
theorem checkQubits_eq_forM_from {context : Option String} {before seen rest : List Qubit}
    (hseen : ∀ q, q ∈ seen ↔ q ∈ before) :
    c.checkQubits context seen rest =
      forM ((rest.zipIdx before.length).flatMap (c.operandRequirements context (before ++ rest)))
        Requirement.check := by
  induction rest generalizing before seen with
  | nil => rfl
  | cons q rest ih =>
    have hnext : ∀ p, p ∈ q :: seen ↔ p ∈ before ++ [q] := by
      intro p
      rw [List.mem_cons, List.mem_append, List.mem_singleton, hseen, or_comm]
    have hrest := ih hnext
    rw [List.length_append, List.length_singleton, List.append_assoc, List.singleton_append] at hrest
    rw [checkQubits, List.zipIdx_cons, List.flatMap_cons, List.forM_append, ← hrest]
    by_cases hq : c.hasQubit q = true
    · by_cases hs : q ∈ before
      · simp [operandRequirements, Requirement.check, hq, hs, hseen]
      · simp [operandRequirements, Requirement.check, hq, hs, hseen]
    · simp [operandRequirements, Requirement.check, hq]

theorem checkQubits_eq_forM (context : Option String) (qubits : List Qubit) :
    c.checkQubits context [] qubits = forM (c.qubitRequirements context qubits) Requirement.check :=
  checkQubits_eq_forM_from (fun _ => Iff.rfl)

theorem checkClbits_eq_forM (clbits : List Clbit) :
    c.checkClbits clbits = forM (c.clbitRequirements clbits) Requirement.check := by
  induction clbits with
  | nil => rfl
  | cons b rest ih =>
    rw [checkClbits, clbitRequirements, List.map_cons, List.forM_cons, ← clbitRequirements, ← ih]
    by_cases hb : c.hasClbit b = true <;> simp [Requirement.check, hb]

theorem checkCondition_eq_check (condition : Condition) :
    c.checkCondition condition = (c.targetRequirement condition.target).check := by
  unfold checkCondition targetRequirement
  cases condition.target with
  | bit b => by_cases hb : c.hasClbit b = true <;> simp [checkClbits, Requirement.check, hb]
  | register name => rfl

/-- The checks of an operation are its requirements in order. -/
theorem checkOwn_eq_forM (op : Operation) :
    c.checkOwn op = forM (c.requirements op) Requirement.check := by
  cases op with
  | gate g qubits =>
    rw [checkOwn, checkGate, requirements, List.forM_append, List.forM_cons, ← checkQubits_eq_forM,
      ← g.checkMasks_eq_forM]
    by_cases harity : g.arity = qubits.length <;> simp [Requirement.check, harity]
  | measure qubits clbits =>
    rw [checkOwn, checkMeasure, requirements, List.forM_cons, List.forM_append, ← checkQubits_eq_forM,
      ← checkClbits_eq_forM]
    by_cases hlength : qubits.length = clbits.length <;> simp [Requirement.check, hlength]
  | ifElse condition thenBody elseBody => simp [checkOwn, requirements, checkCondition_eq_check]
  | whileLoop condition body => simp [checkOwn, requirements, checkCondition_eq_check]
  | forLoop iteration loopVar body =>
    cases iteration with
    | range start stop step =>
      by_cases hstep : step = 0 <;>
        simp [checkOwn, checkIteration, requirements, iterationRequirements, Requirement.check, hstep]
    | values items => rfl
    | count rounds => rfl
  | directive d qubits => exact checkQubits_eq_forM _ _

/-! ## Well-formed operations -/

/-- What the circuit asks of an operation, apart from those inside it and in no order. -/
def WellFormed (c : Circuit) : Operation → Prop
  | .gate g qubits => c.AdmitsQubits qubits ∧ g.arity = qubits.length ∧ g.MasksFit
  | op => c.Admits op

theorem wellFormed_iff_admits {op : Operation} : c.WellFormed op ↔ c.Admits op := by
  cases op with
  | gate g qubits => rw [WellFormed, Admits, Gate.checkMasks_eq_ok_iff]
  | _ => exact Iff.rfl

theorem checkOwn_eq_error_iff {op : Operation} {e : CircuitError} :
    c.checkOwn op = .error e ↔ c.violation? op = some e := by
  rw [checkOwn_eq_forM, Requirement.forM_check_eq_error_iff, violation?]

theorem wellFormed_iff_violation? {op : Operation} : c.WellFormed op ↔ c.violation? op = none := by
  rw [wellFormed_iff_admits, ← checkOwn_eq_ok_iff, checkOwn_eq_forM, Requirement.forM_check_eq_ok_iff,
    violation?]

/-- The first occurrence of a kind, as the operation at a path before which there is none. -/
theorem exists_first_iff (c : Circuit) (fine faulty : Operation → Prop) :
    (∃ before o after, c.occurrences = before ++ o :: after ∧ (∀ x ∈ before, fine x.operation) ∧
      faulty o.operation) ↔
    ∃ path op, c.at? path = some op ∧ faulty op ∧
      ∀ path' op', Path.Precedes path' path → c.at? path' = some op' → fine op' := by
  constructor
  · rintro ⟨before, o, after, hsplit, hbefore, hfaulty⟩
    have ho : o ∈ c.occurrences := by simp [hsplit]
    refine ⟨o.path, o.operation, at?_eq_some_iff.2 ⟨o, ho, rfl, rfl⟩, hfaulty, ?_⟩
    intro path' op' hprecedes hat
    obtain ⟨x, hx, rfl, rfl⟩ := at?_eq_some_iff.1 hat
    exact hbefore x ((mem_before_iff hsplit hx).2 hprecedes)
  · rintro ⟨path, op, hat, hfaulty, hfirst⟩
    obtain ⟨o, ho, rfl, rfl⟩ := at?_eq_some_iff.1 hat
    obtain ⟨before, after, hsplit⟩ := List.append_of_mem ho
    refine ⟨before, o, after, hsplit, fun x hx => ?_, hfaulty⟩
    have hmem : x ∈ c.occurrences := by simp [hsplit, hx]
    exact hfirst x.path x.operation ((mem_before_iff hsplit hmem).1 hx)
      (at?_eq_some_iff.2 ⟨x, hmem, rfl, rfl⟩)

theorem validate_eq_forM_occurrences (c : Circuit) :
    c.validate = forM c.occurrences fun o => c.checkOwn o.operation := by
  rw [validate, c.check_eq_forM_and_all.2, ← nodes, ← map_operation_occurrences, List.forM_map]

end Circuit

/-- **A validation accepts the well-formed circuits and reports the first violation.** A circuit is valid
exactly if every operation at every depth is well-formed. Otherwise the error is the first one of an operation
at some path, and every operation before that one in document order is well-formed. -/
theorem validation_reports_first_violation (c : Circuit) :
    (c.validate = .ok () ↔ ∀ path op, c.at? path = some op → c.WellFormed op) ∧
    (∀ op, c.WellFormed op ↔ c.violation? op = none) ∧
    ∀ e, c.validate = .error e ↔ ∃ path op, c.at? path = some op ∧ c.violation? op = some e ∧
      ∀ path' op', Path.Precedes path' path → c.at? path' = some op' → c.WellFormed op' := by
  refine ⟨?_, fun op => Circuit.wellFormed_iff_violation?, fun e => ?_⟩
  · rw [c.validate_eq_forM_occurrences, forM_eq_ok_iff]
    simp only [Circuit.checkOwn_eq_ok_iff, ← Circuit.wellFormed_iff_admits]
    constructor
    · intro hall path op hat
      obtain ⟨o, ho, -, rfl⟩ := Circuit.at?_eq_some_iff.1 hat
      exact hall o ho
    · intro hall o ho
      exact hall o.path o.operation (Circuit.at?_eq_some_iff.2 ⟨o, ho, rfl, rfl⟩)
  · rw [c.validate_eq_forM_occurrences, forM_eq_error_iff]
    simp only [Circuit.checkOwn_eq_ok_iff, ← Circuit.wellFormed_iff_admits, Circuit.checkOwn_eq_error_iff]
    exact c.exists_first_iff c.WellFormed (c.violation? · = some e)

-- An operand that is given twice is reported before the wrong number of operands, and a loop without a step
-- is not reached.
example :
    (⟨"faulty", [⟨"q", 2⟩], [],
      [.forLoop (.count 2) none [.gate (.fixed .x) [⟨"q", 0⟩, ⟨"q", 0⟩]],
        .forLoop (.range 0 1 0) none []]⟩ : Circuit).validate =
      .error (.duplicateQubit ⟨"q", 0⟩ (some "x")) := by
  rfl

end CircuitCalls
