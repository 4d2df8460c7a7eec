import CircuitCalls.Proofs.Elaboration
import CircuitCalls.Proofs.Roles

/-!
# Control modifiers

A modifier takes as many operands as it has controls off the front of those that the modifiers before
it leave over (`assign`). A gate call with control modifiers becomes one gate, whose controls are the
operands so taken, in order and with the polarity of their modifier, and after them the controls that
its standard gate implies (`control_modifiers_assign_roles`).
-/

namespace CircuitCalls

/-! ## Roles from polarities -/

section Polarity

variable {α : Type}

def signed (sign : Bool) (operands : List α) (polarity : List Bool) : List α :=
  ((operands.zip polarity).filter (·.2 == sign)).map (·.1)

theorem Gate.roles_eq (g : Gate) (operands : List α) :
    g.roles operands =
      { root := (g.plan operands.length).root
        targets := operands.drop (g.plan operands.length).polarity.length
        positive := signed true operands (g.plan operands.length).polarity
        negative := signed false operands (g.plan operands.length).polarity } := by
  simp [roles, signed]

theorem signed_nil (sign : Bool) (operands : List α) : signed sign operands [] = [] := by
  simp [signed]

theorem signed_cons (sign first : Bool) (x : α) (operands : List α) (polarity : List Bool) :
    signed sign (x :: operands) (first :: polarity) =
      (if first = sign then [x] else []) ++ signed sign operands polarity := by
  by_cases h : first = sign <;> simp [signed, h]

/-- Controls of one sign are taken off the front together. -/
theorem signed_replicate_append (sign same : Bool) (n : Nat) (operands : List α)
    (polarity : List Bool) :
    signed sign operands (List.replicate n same ++ polarity) =
      (if same = sign then operands.take n else []) ++ signed sign (operands.drop n) polarity := by
  induction n generalizing operands with
  | zero => simp
  | succ n ih =>
    cases operands with
    | nil => simp [signed]
    | cons x rest =>
      rw [List.replicate_succ, List.cons_append, signed_cons, ih, List.drop_succ_cons]
      by_cases h : same = sign <;> simp [h]

theorem signed_replicate (sign same : Bool) (n : Nat) (operands : List α) :
    signed sign operands (List.replicate n same) = if same = sign then operands.take n else [] := by
  have h := signed_replicate_append sign same n operands []
  rwa [List.append_nil, signed_nil, List.append_nil] at h

theorem maskPolarity_none (controls : UInt32) :
    maskPolarity controls none = List.replicate controls.toNat true := by
  simp [maskPolarity, List.map_const']

theorem maskPolarity_zero (controls : UInt32) :
    maskPolarity controls (some 0) = List.replicate controls.toNat false := by
  simp [maskPolarity, List.map_const']

end Polarity

namespace Qasm

/-! ## Modifiers -/

namespace Modifier

def isControl : Modifier → Bool
  | ctrl _ | negctrl _ => true
  | _ => false

def polarity : Modifier → List Bool
  | ctrl count => List.replicate count.toNat true
  | negctrl count => List.replicate count.toNat false
  | _ => []

/-- A mask has bits for at most 64 controls. -/
def Fits : Modifier → Prop
  | negctrl count => count ≤ 64
  | _ => True

theorem length_polarity (m : Modifier) : m.polarity.length = m.controls := by
  cases m <;> simp [polarity, controls]

/-- A modifier adds its controls in front of those that are there and leaves the gate inside alone. -/
theorem apply_eq_ok {g g' : Gate} {m : Modifier} (hm : m.isControl = true)
    (h : m.apply g = .ok g') :
    g'.innermost = g.innermost ∧ g'.wrapperPolarity = m.polarity ++ g.wrapperPolarity := by
  cases m with
  | ctrl count =>
    cases h
    exact ⟨rfl, by rw [Gate.wrapperPolarity, maskPolarity_none, polarity]⟩
  | negctrl count =>
    rw [apply, liftCircuit_eq_ok_iff, Gate.control] at h
    obtain ⟨u, -, h⟩ := bind_eq_ok_iff.1 h
    cases h
    exact ⟨rfl, by rw [Gate.wrapperPolarity, maskPolarity_zero, polarity]⟩
  | inv => cases hm
  | pow exponent => cases hm

theorem apply_of_fits (g : Gate) {m : Modifier} (hm : m.isControl = true) (hfits : m.Fits) :
    ∃ g', m.apply g = .ok g' := by
  cases m with
  | ctrl count => exact ⟨_, rfl⟩
  | negctrl count =>
    have hmask : checkMask 0 count = .ok () := by
      have hpow : ¬ 1 <<< count.toNat ≤ (0 : UInt64).toNat := by
        rw [Nat.one_shiftLeft]
        exact Nat.not_le.2 (Nat.two_pow_pos _)
      rw [checkMask, if_neg (UInt32.not_lt.2 hfits), if_neg hpow]
    simp [apply, Gate.control, hmask, liftCircuit]
  | inv => cases hm
  | pow exponent => cases hm

end Modifier

/-- The operands that modifiers take for controls of either sign, and those that are left over. -/
structure Portions (α : Type) where
  positive : List α
  negative : List α
  rest : List α

/-- Each modifier takes as many operands as it has controls, the first modifier taking the first ones. -/
def assign {α : Type} : List Modifier → List α → Portions α
  | [], operands => ⟨[], [], operands⟩
  | .ctrl count :: rest, operands =>
    let inner := assign rest (operands.drop count.toNat)
    ⟨operands.take count.toNat ++ inner.positive, inner.negative, inner.rest⟩
  | .negctrl count :: rest, operands =>
    let inner := assign rest (operands.drop count.toNat)
    ⟨inner.positive, operands.take count.toNat ++ inner.negative, inner.rest⟩
  | _ :: rest, operands => assign rest operands

section Assign

variable {α : Type}

/-- What modifiers take agrees with the polarities that they add. -/
theorem signed_flatMap_polarity (modifiers : List Modifier) (operands : List α)
    (polarity : List Bool) :
    signed true operands (modifiers.flatMap Modifier.polarity ++ polarity) =
        (assign modifiers operands).positive ++
          signed true (assign modifiers operands).rest polarity ∧
      signed false operands (modifiers.flatMap Modifier.polarity ++ polarity) =
        (assign modifiers operands).negative ++
          signed false (assign modifiers operands).rest polarity := by
  induction modifiers generalizing operands with
  | nil => exact ⟨rfl, rfl⟩
  | cons m rest ih =>
    cases m with
    | ctrl count =>
      obtain ⟨hpos, hneg⟩ := ih (operands.drop count.toNat)
      simp [Modifier.polarity, assign, signed_replicate_append, hpos, hneg]
    | negctrl count =>
      obtain ⟨hpos, hneg⟩ := ih (operands.drop count.toNat)
      simp [Modifier.polarity, assign, signed_replicate_append, hpos, hneg]
    | inv => exact ih operands
    | pow exponent => exact ih operands

theorem rest_assign (modifiers : List Modifier) (operands : List α) :
    (assign modifiers operands).rest =
      operands.drop (modifiers.flatMap Modifier.polarity).length := by
  induction modifiers generalizing operands with
  | nil => rfl
  | cons m rest ih =>
    cases m with
    | ctrl count => simp [assign, Modifier.polarity, ih]
    | negctrl count => simp [assign, Modifier.polarity, ih]
    | inv => exact ih operands
    | pow exponent => exact ih operands

end Assign

/-- Modifiers add their controls in the order in which they are written. -/
theorem applyModifiers_eq_ok {base g : Gate} {modifiers : List Modifier}
    (hm : ∀ m ∈ modifiers, m.isControl = true) (h : applyModifiers base modifiers = .ok g) :
    g.innermost = base.innermost ∧
      g.wrapperPolarity = modifiers.flatMap Modifier.polarity ++ base.wrapperPolarity := by
  induction modifiers generalizing g with
  | nil =>
    cases h
    exact ⟨rfl, rfl⟩
  | cons m rest ih =>
    obtain ⟨inner, hinner, h⟩ := bind_eq_ok_iff.1 h
    obtain ⟨hroot, hpolarity⟩ := ih (fun x hx => hm x (List.mem_cons_of_mem m hx)) hinner
    obtain ⟨hroot', hpolarity'⟩ := Modifier.apply_eq_ok (hm m List.mem_cons_self) h
    rw [hroot', hpolarity', hroot, hpolarity, List.flatMap_cons, List.append_assoc]
    exact ⟨rfl, rfl⟩

theorem applyModifiers_of_fits (base : Gate) {modifiers : List Modifier}
    (hm : ∀ m ∈ modifiers, m.isControl = true) (hfits : ∀ m ∈ modifiers, m.Fits) :
    ∃ g, applyModifiers base modifiers = .ok g := by
  induction modifiers with
  | nil => exact ⟨base, rfl⟩
  | cons m rest ih =>
    obtain ⟨inner, hinner⟩ := ih (fun x hx => hm x (List.mem_cons_of_mem m hx))
      (fun x hx => hfits x (List.mem_cons_of_mem m hx))
    obtain ⟨g, hg⟩ := m.apply_of_fits inner (hm m List.mem_cons_self) (hfits m List.mem_cons_self)
    exact ⟨g, bind_eq_ok_iff.2 ⟨inner, hinner, hg⟩⟩

namespace GateCall

/-- Every control that is counted has a sign. -/
theorem controls_eq (call : GateCall) :
    call.controls = (call.modifiers.flatMap Modifier.polarity).length := by
  rw [controls]
  suffices h : ∀ (ms : List Modifier) (count : Nat),
      ms.foldl (fun count m => count + m.controls) count =
        count + (ms.flatMap Modifier.polarity).length by
    rw [h, Nat.zero_add]
  intro ms
  induction ms with
  | nil => intro count; rfl
  | cons m rest ih =>
    intro count
    rw [List.foldl_cons, ih, List.flatMap_cons, List.length_append, m.length_polarity, Nat.add_assoc]

/-- The operands of a gate call by role: the modifiers take their controls first, then the standard gate
takes those that it implies. A name without a standard gate is its own root. -/
def assignedRoles {α : Type} (call : GateCall) (standard : Option StandardGate) (operands : List α) :
    Roles α :=
  let taken := assign call.modifiers operands
  match standard with
  | some s =>
    ⟨s.root.name, taken.rest.drop s.controls, taken.positive ++ taken.rest.take s.controls,
      taken.negative⟩
  | none => ⟨call.name, taken.rest, taken.positive, taken.negative⟩

/-- A standard gate needs an operand for each control of the modifiers and for each of its own qubits.
Any other gate takes what the modifiers leave, which has to be something. -/
def Accepts (call : GateCall) (standard : Option StandardGate) (operands : Nat) : Prop :=
  match standard with
  | some s => operands = call.controls + s.arity
  | none => call.controls < operands ∧ operands < UInt32.size

variable {call : GateCall} {qregs : List (Register .quantum)} {qubits : List Qubit}
  {parameters : List Parameter} {standard : Option StandardGate}

/-- Only a name that is no standard one has no standard gate. -/
theorem ofName?_of_standardGate {name : String} (h : standardGate name parameters = .ok none) :
    GateForm.ofName? name = none := by
  rw [standardGate] at h
  split at h
  · assumption
  · split at h <;> cases h

theorem baseGate_of_standard {s : StandardGate}
    (h : standardGate (lowercase call.name) parameters = .ok (some s)) (operands : Nat) :
    call.baseGate parameters operands = .ok (.standard s none) := by
  rw [baseGate, h]
  rfl

/-- A name without a standard gate is a custom gate on the operands that the modifiers leave. -/
theorem baseGate_eq_ok_iff (h : standardGate (lowercase call.name) parameters = .ok none)
    {operands : Nat} {base : Gate} :
    call.baseGate parameters operands = .ok base ↔
      call.controls < min operands (UInt32.size - 1) ∧ base = .custom
        ⟨call.name, UInt32.ofNat (min operands (UInt32.size - 1) - call.controls), parameters⟩ none := by
  rw [baseGate, h, ok_bind]
  generalize min operands (UInt32.size - 1) = counted
  by_cases hle : counted ≤ call.controls
  · simp [hle, Nat.not_lt.2 hle]
  · simp [hle, Nat.not_le.1 hle, eq_comm]

/-- The roles of operands come from the modifiers and the base gate. -/
theorem roles_applyModifiers {α : Type} {base g : Gate} {operands : Nat}
    (hm : ∀ m ∈ call.modifiers, m.isControl = true)
    (hstandard : standardGate (lowercase call.name) parameters = .ok standard)
    (hname : standard = none → 0 < call.controls)
    (hbase : call.baseGate parameters operands = .ok base)
    (hg : applyModifiers base call.modifiers = .ok g) (xs : List α) :
    g.roles xs = call.assignedRoles standard xs := by
  obtain ⟨hroot, hpolarity⟩ := applyModifiers_eq_ok hm hg
  cases standard with
  | some s =>
    rw [baseGate_of_standard hstandard] at hbase
    cases hbase
    have hplan : g.plan xs.length =
        ⟨s.root.name, call.modifiers.flatMap Modifier.polarity ++ List.replicate s.controls true⟩ := by
      rw [Gate.plan, Gate.planUnder_eq, hroot, hpolarity]
      simp [Gate.innermost, Gate.planUnder, Gate.wrapperPolarity]
    obtain ⟨hpos, hneg⟩ := signed_flatMap_polarity call.modifiers xs (List.replicate s.controls true)
    rw [Gate.roles_eq, hplan, assignedRoles]
    simp [hpos, hneg, signed_replicate, rest_assign]
  | none =>
    obtain ⟨-, rfl⟩ := (baseGate_eq_ok_iff hstandard).1 hbase
    have hne : call.modifiers.flatMap Modifier.polarity ≠ [] := by
      intro hnil
      have hcontrols := hname rfl
      rw [controls_eq, hnil] at hcontrols
      exact Nat.lt_irrefl 0 hcontrols
    have hplan : g.plan xs.length = ⟨call.name, call.modifiers.flatMap Modifier.polarity⟩ := by
      rw [Gate.plan, Gate.planUnder_eq, hroot, hpolarity]
      simp [Gate.innermost, Gate.planUnder, Gate.wrapperPolarity, hne]
    obtain ⟨hpos, hneg⟩ := signed_flatMap_polarity call.modifiers xs []
    rw [List.append_nil] at hpos hneg
    rw [Gate.roles_eq, hplan, assignedRoles]
    simp [hpos, hneg, signed_nil, rest_assign]

/-- The number of qubits of the gate of a call. -/
theorem arity_applyModifiers {base g : Gate} (hm : ∀ m ∈ call.modifiers, m.isControl = true)
    (hg : applyModifiers base call.modifiers = .ok g) :
    g.arity = call.controls + base.arity := by
  obtain ⟨hroot, hpolarity⟩ := applyModifiers_eq_ok hm hg
  rw [g.arity_eq, base.arity_eq, hroot, hpolarity, List.length_append, ← controls_eq, Nat.add_assoc]

/-- With modifiers in front a call is one gate or none. -/
theorem operations_eq_ok_iff (hne : call.modifiers ≠ []) {ops : List Operation} :
    call.operations qregs = .ok ops ↔
      ∃ qubits parameters base g, operandBits qregs call.qubits = .ok qubits ∧
        call.parameters.mapM Expression.parameter = .ok parameters ∧
        call.baseGate parameters qubits.length = .ok base ∧
        applyModifiers base call.modifiers = .ok g ∧ qubits.length = g.arity ∧
        ops = [.gate g qubits] := by
  have hmodified : ∀ p : Prop, ¬ (call.modifiers.isEmpty = true ∧ p) := by
    rintro p ⟨hempty, -⟩
    exact hne (List.isEmpty_iff.1 hempty)
  rw [operations]
  constructor
  · intro h
    obtain ⟨qubits, hqubits, h⟩ := bind_eq_ok_iff.1 h
    obtain ⟨parameters, hparameters, h⟩ := bind_eq_ok_iff.1 h
    obtain ⟨base, hbase, h⟩ := bind_eq_ok_iff.1 h
    rw [if_neg (hmodified _)] at h
    obtain ⟨g, hg, h⟩ := bind_eq_ok_iff.1 h
    split at h
    · rename_i harity
      cases h
      exact ⟨qubits, parameters, base, g, hqubits, hparameters, hbase, hg, harity, rfl⟩
    · cases h
  · rintro ⟨qubits, parameters, base, g, hqubits, hparameters, hbase, hg, harity, rfl⟩
    rw [hqubits, ok_bind, hparameters, ok_bind, hbase, ok_bind, if_neg (hmodified _), hg, ok_bind,
      if_pos harity]
    rfl

/-- Where operands and parameters are in order and masks fit, the number of operands decides. -/
theorem exists_operations_iff (hne : call.modifiers ≠ [])
    (hm : ∀ m ∈ call.modifiers, m.isControl = true) (hfits : ∀ m ∈ call.modifiers, m.Fits)
    (hqubits : operandBits qregs call.qubits = .ok qubits)
    (hparameters : call.parameters.mapM Expression.parameter = .ok parameters)
    (hstandard : standardGate (lowercase call.name) parameters = .ok standard) :
    (∃ ops, call.operations qregs = .ok ops) ↔ call.Accepts standard qubits.length := by
  -- the operation exists exactly if a base gate does whose arity makes up for the rest
  have hoperations : (∃ ops, call.operations qregs = .ok ops) ↔
      ∃ base, call.baseGate parameters qubits.length = .ok base ∧
        qubits.length = call.controls + base.arity := by
    simp only [operations_eq_ok_iff hne, hqubits, hparameters, Except.ok.injEq]
    constructor
    · rintro ⟨ops, _, _, base, g, rfl, rfl, hbase, hg, harity, -⟩
      exact ⟨base, hbase, harity.trans (arity_applyModifiers hm hg)⟩
    · rintro ⟨base, hbase, harity⟩
      obtain ⟨g, hg⟩ := applyModifiers_of_fits base hm hfits
      exact ⟨_, qubits, parameters, base, g, rfl, rfl, hbase, hg,
        harity.trans (arity_applyModifiers hm hg).symm, rfl⟩
  rw [hoperations]
  cases standard with
  | some s => simp [baseGate_of_standard hstandard, Accepts, Gate.arity]
  | none =>
    simp only [baseGate_eq_ok_iff hstandard, Accepts]
    constructor
    · rintro ⟨base, ⟨hlt, rfl⟩, harity⟩
      rw [Gate.arity, UInt32.toNat_ofNat_of_lt' (by omega)] at harity
      omega
    · rintro ⟨hlt, hsize⟩
      refine ⟨_, ⟨by omega, rfl⟩, ?_⟩
      rw [Gate.arity, UInt32.toNat_ofNat_of_lt' (by omega)]
      omega

end GateCall

/-- **Control modifiers decide the roles.** A gate call with control modifiers in front, of a standard
gate or with at least one control, is elaborated to one gate: its leading operands are the controls of
the modifiers, in order and each with the sign of its modifier, then come the controls that the standard
gate implies, and the rest are targets of the root. Provided that operands, parameters and masks are in
order, it is refused exactly if there are not as many operands as modifiers and gate ask for. -/
theorem control_modifiers_assign_roles {call : GateCall} {qregs : List (Register .quantum)}
    (hne : call.modifiers ≠ []) (hm : ∀ m ∈ call.modifiers, m.isControl = true) :
    (∀ ops, call.operations qregs = .ok ops →
      (GateForm.ofName? (lowercase call.name) ≠ none ∨ 0 < call.controls) →
      ∃ g qubits parameters standard, ops = [.gate g qubits] ∧
        operandBits qregs call.qubits = .ok qubits ∧
        call.parameters.mapM Expression.parameter = .ok parameters ∧
        standardGate (lowercase call.name) parameters = .ok standard ∧
        ∀ operands : List Nat, g.roles operands = call.assignedRoles standard operands) ∧
    ∀ qubits parameters standard, operandBits qregs call.qubits = .ok qubits →
      call.parameters.mapM Expression.parameter = .ok parameters →
      standardGate (lowercase call.name) parameters = .ok standard → (∀ m ∈ call.modifiers, m.Fits) →
      ((∃ e, call.operations qregs = .error e) ↔ ¬ call.Accepts standard qubits.length) := by
  refine ⟨?_, ?_⟩
  · intro ops h hname
    obtain ⟨qubits, parameters, base, g, hqubits, hparameters, hbase, hg, -, rfl⟩ :=
      (GateCall.operations_eq_ok_iff hne).1 h
    obtain ⟨standard, hstandard, -⟩ := bind_eq_ok_iff.1 hbase
    refine ⟨g, qubits, parameters, standard, rfl, hqubits, hparameters, hstandard, ?_⟩
    intro operands
    refine GateCall.roles_applyModifiers hm hstandard ?_ hbase hg operands
    rintro rfl
    exact hname.resolve_left (not_not.2 (GateCall.ofName?_of_standardGate hstandard))
  · intro qubits parameters standard hqubits hparameters hstandard hfits
    rw [← GateCall.exists_operations_iff hne hm hfits hqubits hparameters hstandard]
    cases call.operations qregs <;> simp

/-- `negctrl @ ctrl(2) @ cx q;` on a register of five qubits. -/
def mixedModifiers : GateCall := ⟨"cx", [], [⟨"q", .all⟩], [.negctrl 1, .ctrl 2]⟩

theorem control_modifiers_assign_roles_mixedModifiers :
    (∃ g qubits, mixedModifiers.operations [⟨"q", 5⟩] = .ok [.gate g qubits] ∧
      g.roles [10, 11, 12, 13, 14] = ⟨"x", [14], [11, 12, 13], [10]⟩) ∧
    ∃ e, mixedModifiers.operations [⟨"q", 4⟩] = .error e := by
  have hne : mixedModifiers.modifiers ≠ [] := List.cons_ne_nil _ _
  have hm : ∀ m ∈ mixedModifiers.modifiers, m.isControl = true := by decide
  have hfits : ∀ m ∈ mixedModifiers.modifiers, m.Fits := by simp [mixedModifiers, Modifier.Fits]
  have hname : GateForm.ofName? (lowercase mixedModifiers.name) = some (.fixed .cx) := by decide +kernel
  have hstandard : standardGate (lowercase mixedModifiers.name) [] = .ok (some (.fixed .cx)) := by
    rw [standardGate, hname]
    rfl
  refine ⟨?_, ?_⟩
  · obtain ⟨hroles, hcount⟩ := @control_modifiers_assign_roles _ [⟨"q", 5⟩] hne hm
    cases hops : mixedModifiers.operations [⟨"q", 5⟩] with
    | error e => exact absurd rfl ((hcount _ _ _ rfl rfl hstandard hfits).1 ⟨e, hops⟩)
    | ok ops =>
      obtain ⟨g, qubits, parameters, standard, rfl, -, hparameters, hfound, hg⟩ :=
        hroles ops hops (Or.inr (by decide))
      cases hparameters
      cases hstandard.symm.trans hfound
      exact ⟨g, qubits, rfl, hg [10, 11, 12, 13, 14]⟩
  · refine ((control_modifiers_assign_roles hne hm).2 _ _ _ rfl rfl hstandard hfits).2 ?_
    exact (by decide : ¬ 4 = 5)

end Qasm

end CircuitCalls
