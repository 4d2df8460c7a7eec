import CircuitCalls.Gate.Roles
import Mathlib.Data.List.Perm.Basic

/-!
# Targets and controls

A gate is an innermost gate inside wrappers, and the roles of its operands follow from the two apart:
the wrappers give the polarities of the first operands, and the innermost gate decides on the root
(`planUnder_eq`). `Gate.RootIs` says which gate the root is and how many qubits it has. Operands that are
as many as the gate asks for leave that many targets (`rootIs_roles`), and no operand is lost or used
twice (`perm_roles`).
-/

namespace CircuitCalls

/-! ## Standard names -/

theorem FixedGate.ofName?_name (g : FixedGate) : ofName? g.name = some g := by
  cases g <;> rfl

theorem Rotation.ofName?_name (g : Rotation) : ofName? g.name = some g := by
  cases g <;> rfl

theorem FixedGate.ofName?_rotation_name (g : Rotation) : ofName? g.name = none := by
  cases g <;> rfl

theorem FixedGate.name_of_ofName? {name : String} {g : FixedGate} (h : ofName? name = some g) :
    g.name = name := by
  have hname := List.find?_some h
  exact beq_iff_eq.1 hname

theorem Rotation.name_of_ofName? {name : String} {g : Rotation} (h : ofName? name = some g) :
    g.name = name := by
  have hname := List.find?_some h
  exact beq_iff_eq.1 hname

namespace StandardGate

theorem arity_eq (s : StandardGate) : s.arity = s.controls + s.root.arity := by
  cases s with
  | fixed g => cases g <;> rfl
  | rotation g angle => cases g <;> rfl
  | u theta phi lambda => rfl

/-- The names that have an arity as roots are those of the gates without implied controls. -/
theorem rootArity?_eq_some_iff {name : String} {arity : Nat} :
    rootArity? name = some arity ↔
      ∃ s : StandardGate, s.controls = 0 ∧ s.name = name ∧ s.arity = arity := by
  constructor
  · intro h
    cases hf : FixedGate.ofName? name with
    | some g =>
      rw [rootArity?, hf] at h
      obtain ⟨hc, ha⟩ := Option.ite_none_right_eq_some.1 h
      exact ⟨fixed g, hc, FixedGate.name_of_ofName? hf, Option.some.inj ha⟩
    | none =>
      cases hr : Rotation.ofName? name with
      | some g =>
        rw [rootArity?, hf, hr] at h
        obtain ⟨hc, ha⟩ := Option.ite_none_right_eq_some.1 h
        exact ⟨rotation g .pi, hc, Rotation.name_of_ofName? hr, Option.some.inj ha⟩
      | none =>
        rw [rootArity?, hf, hr] at h
        obtain ⟨hname, ha⟩ := Option.ite_none_right_eq_some.1 h
        exact ⟨u .pi .pi .pi, rfl, hname.symm, Option.some.inj ha⟩
  · rintro ⟨s, hc, rfl, rfl⟩
    cases s with
    | fixed g =>
      change g.controls = 0 at hc
      simp [rootArity?, name, arity, FixedGate.ofName?_name, hc]
    | rotation g angle =>
      change g.controls = 0 at hc
      simp [rootArity?, name, arity, FixedGate.ofName?_rotation_name, Rotation.ofName?_name, hc]
    | u theta phi lambda => rfl

end StandardGate

namespace Gate

/-! ## Wrappers -/

def innermost : Gate → Gate
  | controlled _ _ _ base _ => base.innermost
  | g => g

/-- The polarities of the controls that the wrappers add, those of the outermost first. -/
def wrapperPolarity : Gate → List Bool
  | controlled _ controls mask base _ => maskPolarity controls mask ++ base.wrapperPolarity
  | _ => []

theorem planUnder_eq (operands : Nat) (outer : List Bool) (g : Gate) :
    planUnder operands outer g = planUnder operands (outer ++ g.wrapperPolarity) g.innermost := by
  induction g generalizing outer with
  | standard s label => simp [wrapperPolarity, innermost]
  | custom u label => simp [wrapperPolarity, innermost]
  | controlled name controls mask base label ih =>
    rw [planUnder, ih, wrapperPolarity, innermost, List.append_assoc]

theorem arity_eq (g : Gate) : g.arity = g.wrapperPolarity.length + g.innermost.arity := by
  induction g with
  | standard s label => simp [wrapperPolarity, innermost]
  | custom u label => simp [wrapperPolarity, innermost]
  | controlled name controls mask base label ih =>
    rw [arity, ih, wrapperPolarity, innermost, List.length_append, maskPolarity, List.length_map,
      List.length_range, Nat.add_assoc]

/-- Nothing but standard and custom gates is innermost. -/
theorem innermost_cases (g : Gate) :
    (∃ s label, g.innermost = .standard s label) ∨ ∃ u label, g.innermost = .custom u label := by
  induction g with
  | standard s label => exact Or.inl ⟨s, label, rfl⟩
  | custom u label => exact Or.inr ⟨u, label, rfl⟩
  | controlled name controls mask base label ih => exact ih

/-! ## The root -/

/-- The custom name is a mark of control in front of a standard name with an arity, and there are more
operands than that. -/
structure Marked (name : String) (operands : Nat) (base : String) (arity : Nat) : Prop where
  unmarked : unmarked? name.toList = some base.toList
  standard : ∃ s : StandardGate, s.controls = 0 ∧ s.name = base ∧ s.arity = arity
  lt : arity < operands

/-- A marked name is planned as the base with a control for each operand in front. -/
theorem markedPlan?_eq_some_iff {name : String} {operands : Nat} {plan : ControlPlan} :
    markedPlan? name operands = some plan ↔
      ∃ base arity, Marked name operands base arity ∧
        plan = ⟨base, List.replicate (operands - arity) true⟩ := by
  unfold markedPlan?
  constructor
  · intro h
    obtain ⟨chars, hchars, h⟩ := Option.bind_eq_some_iff.1 h
    obtain ⟨arity, harity, h⟩ := Option.bind_eq_some_iff.1 h
    obtain ⟨hlt, h⟩ := Option.ite_none_right_eq_some.1 h
    refine ⟨String.ofList chars, arity, ⟨?_, StandardGate.rootArity?_eq_some_iff.1 harity, hlt⟩,
      (Option.some.inj h).symm⟩
    rw [hchars, String.toList_ofList]
  · rintro ⟨base, arity, ⟨hunmarked, hstandard, hlt⟩, rfl⟩
    have harity := StandardGate.rootArity?_eq_some_iff.2 hstandard
    simp [hunmarked, harity, hlt]

theorem not_marked_of_markedPlan? {name : String} {operands : Nat}
    (h : markedPlan? name operands = none) (base : String) (arity : Nat) :
    ¬ Marked name operands base arity := by
  intro hmarked
  rw [markedPlan?_eq_some_iff.2 ⟨base, arity, hmarked, rfl⟩] at h
  cases h

/-- The name of the root of a gate on so many operands, and the number of qubits of the root. -/
inductive RootIs (g : Gate) (operands : Nat) : String → Nat → Prop where
  | standard {s : StandardGate} {label : Option String} :
      g.innermost = .standard s label → RootIs g operands s.root.name s.root.arity
  /-- Where no wrapper adds a control, a name can be marked. -/
  | marked {u : CustomGate} {label : Option String} {base : String} {arity : Nat} :
      g.innermost = .custom u label → g.wrapperPolarity = [] → Marked u.name operands base arity →
      RootIs g operands base arity
  | custom {u : CustomGate} {label : Option String} :
      g.innermost = .custom u label →
      (g.wrapperPolarity = [] → ∀ base arity, ¬ Marked u.name operands base arity) →
      RootIs g operands u.name u.arity.toNat

/-- The controls of a gate that has as many operands as it asks for, and its root. -/
theorem rootIs_plan {g : Gate} {operands : Nat} (h : g.arity = operands) :
    ∃ arity, g.RootIs operands (g.plan operands).root arity ∧
      (g.plan operands).polarity.length + arity = operands := by
  rw [arity_eq] at h
  rw [plan, planUnder_eq, List.nil_append]
  rcases g.innermost_cases with ⟨s, label, hs⟩ | ⟨u, label, hu⟩
  · refine ⟨s.root.arity, ?_, ?_⟩
    · rw [hs]
      exact .standard hs
    · rw [hs, arity, s.arity_eq] at h
      rw [hs, planUnder, List.length_append, List.length_replicate, Nat.add_assoc]
      exact h
  · rw [hu, planUnder]
    rw [hu, arity] at h
    by_cases hw : g.wrapperPolarity = []
    · cases hm : markedPlan? u.name operands with
      | some plan =>
        obtain ⟨base, arity, hmarked, rfl⟩ := markedPlan?_eq_some_iff.1 hm
        have hlt := hmarked.lt
        refine ⟨arity, ?_, ?_⟩
        · simpa [hw] using .marked hu hw hmarked
        · simp [hw]
          omega
      | none =>
        refine ⟨u.arity.toNat, ?_, by simpa [hw] using h⟩
        simpa [hw] using RootIs.custom hu fun _ => not_marked_of_markedPlan? hm
    · refine ⟨u.arity.toNat, ?_, by simpa [hw] using h⟩
      simpa [hw] using RootIs.custom hu fun hnil => absurd hnil hw

/-! ## Operands by role -/

variable {α : Type}

theorem map_fst_zip_signs (operands : List α) (signs : List Bool) :
    (operands.zip signs).map (·.1) = operands.take signs.length := by
  induction operands generalizing signs with
  | nil => simp
  | cons x rest ih =>
    cases signs with
    | nil => rfl
    | cons sign signs => simp [ih]

end Gate

namespace Roles

variable {α : Type}

/-- Operands that are controls as long as there are polarities, and targets after that. -/
def split (root : String) (polarity : List Bool) (operands : List α) : Roles α :=
  ⟨root, operands.drop polarity.length, ((operands.zip polarity).filter (·.2)).map (·.1),
    ((operands.zip polarity).filter (!·.2)).map (·.1)⟩

theorem split_replicate (root : String) (n : Nat) (operands : List α) :
    split root (List.replicate n true) operands = ⟨root, operands.drop n, operands.take n, []⟩ := by
  have hsigns : ∀ x ∈ operands.zip (List.replicate n true), x.2 = true := fun x hx =>
    (List.mem_replicate.1 (List.of_mem_zip hx).2).2
  have hpositive := List.filter_eq_self.2 hsigns
  have hnegative : (operands.zip (List.replicate n true)).filter (!·.2) = [] :=
    List.filter_eq_nil_iff.2 fun x hx => by simp [hsigns x hx]
  simp [split, hpositive, hnegative, Gate.map_fst_zip_signs]

end Roles

namespace Gate

variable {α : Type}

/-- No operand is lost, and none has two roles. -/
theorem perm_roles (g : Gate) (operands : List α) :
    ((g.roles operands).targets ++ (g.roles operands).positive ++ (g.roles operands).negative).Perm
      operands := by
  have hcontrols := (List.filter_append_perm (·.2) (operands.zip (g.plan operands.length).polarity)).map
    (·.1)
  rw [List.map_append, map_fst_zip_signs] at hcontrols
  rw [List.append_assoc]
  refine (hcontrols.append_left _).trans (List.perm_append_comm.trans ?_)
  exact .of_eq (List.take_append_drop _ operands)

/-- The targets are the last operands. -/
theorem targets_suffix (g : Gate) (operands : List α) : (g.roles operands).targets <:+ operands :=
  List.drop_suffix _ _

/-- There are as many targets as the root has qubits. -/
theorem rootIs_roles {g : Gate} {operands : List α} (h : g.arity = operands.length) :
    g.RootIs operands.length (g.roles operands).root (g.roles operands).targets.length := by
  obtain ⟨arity, hroot, hlength⟩ := rootIs_plan h
  have htargets : (g.roles operands).targets.length = arity := by
    rw [roles, List.length_drop]
    omega
  rw [htargets]
  exact hroot

end Gate

end CircuitCalls
