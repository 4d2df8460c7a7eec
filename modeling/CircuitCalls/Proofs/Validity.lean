import CircuitCalls.Circuit.Validity
import CircuitCalls.Proofs.Except
import CircuitCalls.Proofs.Operation
import Mathlib.Data.List.Nodup

/-!
# What valid circuits hold

The checks of a circuit are those of its operations at every depth, one operation after the other
(`checkAll_eq_forM`). `Admits` says without any order what the checks of one operation ask for, so
that a circuit is valid exactly if it admits every operation in it.
-/

namespace CircuitCalls

/-! ## Masks -/

/-- A mask that a wrapper with so many controls can have. -/
def MaskFits (controls : UInt32) (mask : Option UInt64) : Prop :=
  ∀ value, mask = some value → controls.toNat ≤ 64 ∧ value.toNat < 1 <<< controls.toNat

theorem checkMask_eq_ok_iff {mask : UInt64} {controls : UInt32} :
    checkMask mask controls = .ok () ↔ controls.toNat ≤ 64 ∧ mask.toNat < 1 <<< controls.toNat := by
  unfold checkMask
  by_cases hwide : 64 < controls
  · have hlt : 64 < controls.toNat := UInt32.lt_iff_toNat_lt.1 hwide
    simp only [if_pos hwide, reduceCtorEq, false_iff]
    omega
  · have hle : controls.toNat ≤ 64 := Nat.not_lt.1 fun hlt => hwide (UInt32.lt_iff_toNat_lt.2 hlt)
    by_cases hvalue : 1 <<< controls.toNat ≤ mask.toNat
    · simp only [if_neg hwide, if_pos hvalue, reduceCtorEq, false_iff]
      omega
    · simp only [if_neg hwide, if_neg hvalue, true_iff]
      omega

namespace Circuit

/-- The checks of an operation, without those of the operations inside it. -/
def checkOwn (c : Circuit) : Operation → Except CircuitError Unit
  | .gate gate qubits => c.checkGate gate qubits
  | .measure qubits clbits => c.checkMeasure qubits clbits
  | .ifElse condition _ _ => c.checkCondition condition
  | .whileLoop condition _ => c.checkCondition condition
  | .forLoop iteration _ _ => checkIteration iteration
  | .directive directive qubits => c.checkQubits (some directive.name) [] qubits

/-- An operation is checked before those inside it, so that checks go in document order. -/
theorem check_eq_forM_and_all (c : Circuit) :
    (∀ op, c.check op = forM op.nodes c.checkOwn) ∧
    ∀ ops, c.checkAll ops = forM (Operation.nodesAll ops) c.checkOwn := by
  apply Operation.induction
  case gate => intro g qubits; simp [check, Operation.nodes, checkOwn]
  case measure => intro qubits clbits; simp [check, Operation.nodes, checkOwn]
  case directive => intro d qubits; simp [check, Operation.nodes, checkOwn]
  case ifThen => intro condition thenBody ih; simp [check, Operation.nodes, checkOwn, ih]
  case ifElse =>
    intro condition thenBody elseBody ihThen ihElse
    simp [check, Operation.nodes, checkOwn, ihThen, ihElse]
  case whileLoop => intro condition body ih; simp [check, Operation.nodes, checkOwn, ih]
  case forLoop => intro iteration loopVar body ih; simp [check, Operation.nodes, checkOwn, ih]
  case nil => rfl
  case cons => intro op rest ihOp ihRest; simp [checkAll, Operation.nodesAll, ihOp, ihRest]

/-! ## What the checks ask for -/

/-- What a condition reads is declared. -/
def Declares (c : Circuit) : ConditionTarget → Prop
  | .bit b => c.hasClbit b = true
  | .register name => (c.creg? name).isSome = true

def AdmitsQubits (c : Circuit) (qubits : List Qubit) : Prop :=
  (∀ q ∈ qubits, c.hasQubit q = true) ∧ qubits.Nodup

/-- What the circuit asks of an operation, apart from those inside it. -/
def Admits (c : Circuit) : Operation → Prop
  | .gate g qubits => c.AdmitsQubits qubits ∧ g.arity = qubits.length ∧ g.checkMasks = .ok ()
  | .measure qubits clbits =>
    qubits.length = clbits.length ∧ c.AdmitsQubits qubits ∧ ∀ b ∈ clbits, c.hasClbit b = true
  | .ifElse condition _ _ => c.Declares condition.target
  | .whileLoop condition _ => c.Declares condition.target
  | .forLoop iteration _ _ => ∀ start stop, iteration ≠ .range start stop 0
  | .directive _ qubits => c.AdmitsQubits qubits

/-- The qubits seen so far turn the pairwise comparison into one pass. -/
theorem checkQubits_eq_ok_iff {c : Circuit} {gate : Option String} {seen qubits : List Qubit} :
    c.checkQubits gate seen qubits = .ok () ↔
      c.AdmitsQubits qubits ∧ ∀ q ∈ qubits, q ∉ seen := by
  induction qubits generalizing seen with
  | nil => simp [checkQubits, AdmitsQubits]
  | cons q rest ih =>
    rw [checkQubits]
    by_cases hq : c.hasQubit q = true
    · by_cases hs : q ∈ seen
      · simp [hq, hs]
      · simp only [hq, hs, Bool.true_eq_false, if_false, ih, AdmitsQubits, List.mem_cons, not_or,
          forall_eq_or_imp, List.nodup_cons]
        constructor
        · rintro ⟨⟨hrest, hn⟩, hseen⟩
          exact ⟨⟨⟨trivial, hrest⟩, fun hm => (hseen q hm).1 rfl, hn⟩, not_false,
            fun a ha => (hseen a ha).2⟩
        · rintro ⟨⟨⟨-, hrest⟩, hm, hn⟩, -, hseen⟩
          refine ⟨⟨hrest, hn⟩, fun a ha => ⟨?_, hseen a ha⟩⟩
          rintro rfl
          exact hm ha
    · simp [hq, AdmitsQubits]

theorem checkClbits_eq_ok_iff {c : Circuit} {clbits : List Clbit} :
    c.checkClbits clbits = .ok () ↔ ∀ b ∈ clbits, c.hasClbit b = true := by
  induction clbits with
  | nil => simp [checkClbits]
  | cons b rest ih =>
    rw [checkClbits]
    by_cases hb : c.hasClbit b = true
    · simp [hb, ih]
    · simp [hb]

theorem checkCondition_eq_ok_iff {c : Circuit} {condition : Condition} :
    c.checkCondition condition = .ok () ↔ c.Declares condition.target := by
  unfold checkCondition Declares
  cases condition.target with
  | bit b => simp [checkClbits_eq_ok_iff]
  | register name => simp [Option.isSome_iff_ne_none]

/-- The checks of an operation ask for what the circuit admits. -/
theorem checkOwn_eq_ok_iff {c : Circuit} {op : Operation} :
    c.checkOwn op = .ok () ↔ c.Admits op := by
  cases op with
  | gate g qubits =>
    rw [checkOwn, checkGate, seq_eq_ok_iff, Admits]
    by_cases ha : g.arity = qubits.length <;> simp [ha, checkQubits_eq_ok_iff]
  | measure qubits clbits =>
    rw [checkOwn, checkMeasure, Admits]
    by_cases hl : qubits.length = clbits.length <;>
      simp [hl, seq_eq_ok_iff, checkQubits_eq_ok_iff, checkClbits_eq_ok_iff]
  | ifElse condition thenBody elseBody => exact checkCondition_eq_ok_iff
  | whileLoop condition body => exact checkCondition_eq_ok_iff
  | forLoop iteration loopVar body =>
    cases iteration with
    | range start stop step => simp [checkOwn, checkIteration, Admits]
    | values vs => simp [checkOwn, checkIteration, Admits]
    | count n => simp [checkOwn, checkIteration, Admits]
  | directive d qubits => simp [checkOwn, Admits, checkQubits_eq_ok_iff]

/-- A circuit is valid exactly if it admits every operation in it. -/
theorem validate_eq_ok_iff {c : Circuit} : c.validate = .ok () ↔ ∀ op ∈ c.nodes, c.Admits op := by
  rw [validate, c.check_eq_forM_and_all.2, forM_eq_ok_iff]
  simp only [checkOwn_eq_ok_iff, nodes]

theorem append_eq_ok_iff {c c' : Circuit} {op : Operation} :
    c.append op = .ok c' ↔
      (∀ o ∈ op.nodes, c.Admits o) ∧ c' = { c with operations := c.operations ++ [op] } := by
  rw [append, seq_eq_ok_iff, c.check_eq_forM_and_all.1, forM_eq_ok_iff]
  simp only [checkOwn_eq_ok_iff, pure_eq_ok, Except.ok.injEq]
  exact and_congr_right fun _ => eq_comm

/-- Only the registers of a circuit decide what it admits. -/
theorem admits_congr (c : Circuit) (ops : List Operation) (op : Operation) :
    ({ c with operations := ops } : Circuit).Admits op ↔ c.Admits op := by
  cases op <;> exact Iff.rfl

theorem nodes_append (c : Circuit) (op : Operation) :
    ({ c with operations := c.operations ++ [op] } : Circuit).nodes = c.nodes ++ op.nodes := by
  simp [nodes, Operation.nodesAll_eq_flatMap]

theorem validate_append {c c' : Circuit} {op : Operation} (h : c.append op = .ok c')
    (hc : c.validate = .ok ()) : c'.validate = .ok () := by
  obtain ⟨hop, rfl⟩ := append_eq_ok_iff.1 h
  rw [validate_eq_ok_iff] at hc ⊢
  intro o ho
  rw [nodes_append] at ho
  rw [admits_congr]
  rcases List.mem_append.1 ho with ho | ho
  · exact hc o ho
  · exact hop o ho

end Circuit

end CircuitCalls
