import CircuitCalls.Proofs.GateAction
import CircuitCalls.Proofs.Modifiers

/-!
# Controls in front of controls

Controls that are added to a gate come before those that it already has, and change nothing about its root
and its targets (`planUnder_length_add`); only a custom gate that was taken for a controlled one by its name
is so no more. Two wrappers are therefore as good as one with the controls of both, whose mask has the bits
of the outer one below those of the inner one (`maskPolarity_add`).
-/

namespace CircuitCalls

/-! ## Masks -/

/-- The mask as a number. Without a mask, all bits are set. -/
def maskValue (controls : UInt32) (mask : Option UInt64) : Nat :=
  mask.elim ((1 <<< controls.toNat) - 1) UInt64.toNat

theorem Gate.control_eq_ok_iff {g h : Gate} {controls : UInt32} {mask : Option UInt64} :
    g.control controls mask = .ok h ↔ MaskFits controls mask ∧
      h = .controlled (controlledName controls g.name) controls mask g none := by
  cases mask with
  | none => simp [control, MaskFits, eq_comm]
  | some value =>
    simp only [control, seq_eq_ok_iff, checkMask_eq_ok_iff, pure_eq_ok, MaskFits]
    simp [eq_comm]

section Masks

variable {controls m n : UInt32} {mask first second joined : Option UInt64}

theorem MaskFits.value_lt (h : MaskFits controls mask) : maskValue controls mask < 1 <<< controls.toNat := by
  cases mask with
  | none =>
    have hpos : 0 < 1 <<< controls.toNat := by
      rw [Nat.one_shiftLeft]
      exact Nat.two_pow_pos _
    exact Nat.sub_lt hpos Nat.one_pos
  | some value => exact (h value rfl).2

theorem maskPolarity_eq_testBit (controls : UInt32) (mask : Option UInt64) :
    maskPolarity controls mask = (List.range controls.toNat).map (maskValue controls mask).testBit := by
  cases mask with
  | none =>
    refine List.map_congr_left fun i hi => ?_
    simp [maskValue, Nat.one_shiftLeft, Nat.testBit_two_pow_sub_one, List.mem_range.1 hi]
  | some value => rfl

/-- The bits of the first mask are below those of the second one. -/
def MaskJoins (m n : UInt32) (first second joined : Option UInt64) : Prop :=
  maskValue (m + n) joined = maskValue m first + maskValue n second <<< m.toNat

instance : Decidable (MaskJoins m n first second joined) := Nat.decEq _ _

theorem toNat_add_of_le (h : m.toNat + n.toNat ≤ 64) : (m + n).toNat = m.toNat + n.toNat := by
  rw [UInt32.toNat_add]
  omega

/-- The polarities under joined masks are those of the first mask and then those of the second one. -/
theorem maskPolarity_add (h : m.toNat + n.toNat ≤ 64) (hfirst : MaskFits m first)
    (hjoined : MaskJoins m n first second joined) :
    maskPolarity (m + n) joined = maskPolarity m first ++ maskPolarity n second := by
  have hlt := hfirst.value_lt
  rw [Nat.one_shiftLeft] at hlt
  have hbits : ∀ i, (maskValue (m + n) joined).testBit i =
      if i < m.toNat then (maskValue m first).testBit i
      else (maskValue n second).testBit (i - m.toNat) := by
    intro i
    rw [hjoined, Nat.shiftLeft_eq, Nat.add_comm, Nat.mul_comm]
    exact Nat.testBit_two_pow_mul_add _ hlt i
  simp only [maskPolarity_eq_testBit, toNat_add_of_le h, List.range_add, List.map_append, List.map_map]
  congr 1
  · refine List.map_congr_left fun i hi => ?_
    rw [hbits, if_pos (List.mem_range.1 hi)]
  · refine List.map_congr_left fun i _ => ?_
    have hge : ¬ m.toNat + i < m.toNat := by omega
    simp [hbits, hge]

theorem MaskJoins.value_lt (h : m.toNat + n.toNat ≤ 64) (hfirst : MaskFits m first)
    (hsecond : MaskFits n second) :
    maskValue m first + maskValue n second <<< m.toNat < 1 <<< (m + n).toNat := by
  have hlow := hfirst.value_lt
  have hhigh := hsecond.value_lt
  rw [toNat_add_of_le h]
  simp only [Nat.shiftLeft_eq, Nat.one_mul] at hlow hhigh ⊢
  calc maskValue m first + maskValue n second * 2 ^ m.toNat
      < 2 ^ m.toNat + maskValue n second * 2 ^ m.toNat := Nat.add_lt_add_right hlow _
    _ = (maskValue n second + 1) * 2 ^ m.toNat := by rw [Nat.add_mul, Nat.one_mul, Nat.add_comm]
    _ ≤ 2 ^ n.toNat * 2 ^ m.toNat := Nat.mul_le_mul_right _ hhigh
    _ = 2 ^ (m.toNat + n.toNat) := by rw [Nat.pow_add, Nat.mul_comm]

theorem MaskJoins.fits (h : m.toNat + n.toNat ≤ 64) (hfirst : MaskFits m first)
    (hsecond : MaskFits n second) (hjoined : MaskJoins m n first second joined) :
    MaskFits (m + n) joined := by
  rintro value rfl
  have hvalue : value.toNat = maskValue m first + maskValue n second <<< m.toNat := hjoined
  rw [hvalue]
  exact ⟨toNat_add_of_le h ▸ h, MaskJoins.value_lt h hfirst hsecond⟩

theorem exists_maskJoins (h : m.toNat + n.toNat ≤ 64) (hfirst : MaskFits m first)
    (hsecond : MaskFits n second) : ∃ value, MaskJoins m n first second (some value) := by
  refine ⟨.ofNat (maskValue m first + maskValue n second <<< m.toNat), ?_⟩
  have hlt := MaskJoins.value_lt h hfirst hsecond
  have hle : 1 <<< (m + n).toNat ≤ 2 ^ 64 := by
    rw [Nat.one_shiftLeft, toNat_add_of_le h]
    exact Nat.pow_le_pow_right (by decide) h
  exact UInt64.toNat_ofNat_of_lt' (Nat.lt_of_lt_of_le hlt hle)

end Masks

/-! ## Roles under one more wrapper -/

section Operands

variable {α : Type}

theorem signed_append (sign : Bool) {controls : List α} {polarity : List Bool}
    (h : controls.length = polarity.length) (operands : List α) (rest : List Bool) :
    signed sign (controls ++ operands) (polarity ++ rest) =
      signed sign controls polarity ++ signed sign operands rest := by
  simp [signed, List.zip_append h]

/-- The operands whose bit in the mask is the sign. -/
def chosen (mask : Option UInt64) (sign : Bool) (operands : List α) : List α :=
  (operands.zipIdx.filter fun operand => maskBit mask operand.2 == sign).map (·.1)

theorem signed_maskPolarity (sign : Bool) {controls : UInt32} (mask : Option UInt64) {operands : List α}
    (h : operands.length = controls.toNat) :
    signed sign operands (maskPolarity controls mask) = chosen mask sign operands := by
  rw [signed, chosen, maskPolarity_eq_maskBit, ← h, List.zipIdx_eq_zip_range', ← List.range_eq_range',
    List.zip_map_right, List.filter_map, List.map_map]
  rfl

end Operands

namespace Gate

/-- On so many operands, the name of the innermost gate is not taken for that of a controlled gate. -/
def KeepsName (g : Gate) (operands : Nat) : Prop :=
  ∀ u label, g.innermost = .custom u label → g.wrapperPolarity = [] →
    ∀ base arity, ¬ Marked u.name operands base arity

/-- Controls in front do not change how a gate whose name is kept reads its own operands. -/
theorem planUnder_length_add {g : Gate} {operands : Nat} (h : g.KeepsName operands) (outer : List Bool) :
    planUnder (outer.length + operands) outer g =
      ⟨(g.plan operands).root, outer ++ (g.plan operands).polarity⟩ := by
  by_cases houter : outer = []
  · subst houter
    simp [plan]
  · rw [plan, planUnder_eq, planUnder_eq operands [] g, List.nil_append]
    rcases g.innermost_cases with ⟨s, label, hs⟩ | ⟨u, label, hu⟩
    · rw [hs, planUnder, planUnder, List.append_assoc]
    · rw [hu, planUnder, planUnder]
      by_cases hw : g.wrapperPolarity = []
      · have hmarked : markedPlan? u.name operands = none := by
          by_contra hsome
          obtain ⟨plan, hplan⟩ := Option.ne_none_iff_exists'.1 hsome
          obtain ⟨base, arity, hmarked, -⟩ := markedPlan?_eq_some_iff.1 hplan
          exact h u label hu hw base arity hmarked
        simp [hw, hmarked, houter]
      · simp [hw]

end Gate

/-- **Controls compose.** A wrapper around a wrapper gives each operand the same role as one wrapper with
the controls of both and the joined mask, which exists and is accepted if there are at most 64 controls. A
wrapper around a gate that keeps its name leaves the root and the targets as they were. Its operands are
controls by the bits of its mask, in front of the controls that the gate has already. -/
theorem nested_controls_compose {g inner : Gate} {n : UInt32} {mask : Option UInt64}
    (hinner : g.control n mask = .ok inner) :
    (∀ (m : UInt32) (mask' : Option UInt64) (outer : Gate), inner.control m mask' = .ok outer →
      m.toNat + n.toNat ≤ 64 →
      (∃ value, MaskJoins m n mask' mask (some value)) ∧
      ∀ joined, MaskJoins m n mask' mask joined → ∃ single, g.control (m + n) joined = .ok single ∧
        ∀ (α : Type) (operands : List α), outer.roles operands = single.roles operands) ∧
    ∀ (α : Type) (controls operands : List α), controls.length = n.toNat →
      g.KeepsName operands.length →
      inner.roles (controls ++ operands) =
        { root := (g.roles operands).root
          targets := (g.roles operands).targets
          positive := chosen mask true controls ++ (g.roles operands).positive
          negative := chosen mask false controls ++ (g.roles operands).negative } := by
  obtain ⟨hmask, rfl⟩ := Gate.control_eq_ok_iff.1 hinner
  constructor
  · intro m mask' outer houter hle
    obtain ⟨hmask', rfl⟩ := Gate.control_eq_ok_iff.1 houter
    refine ⟨exists_maskJoins hle hmask' hmask, fun joined hjoined => ?_⟩
    refine ⟨_, Gate.control_eq_ok_iff.2 ⟨hjoined.fits hle hmask' hmask, rfl⟩, fun α operands => ?_⟩
    have hpolarity := maskPolarity_add hle hmask' hjoined
    simp only [Gate.roles, Gate.plan, Gate.planUnder, List.nil_append, hpolarity]
  · intro α controls operands hlength hkeeps
    have hcontrols : controls.length = (maskPolarity n mask).length := by
      rw [hlength, maskPolarity, List.length_map, List.length_range]
    have hplan := Gate.planUnder_length_add hkeeps (maskPolarity n mask)
    rw [← hcontrols, ← List.length_append] at hplan
    simp only [Gate.roles_eq, Gate.plan, Gate.planUnder, List.nil_append, hplan]
    simp only [signed_append _ hcontrols, signed_maskPolarity _ mask hlength, List.length_append,
      ← hcontrols, List.drop_length_add_append]

/-- A control that fires on 0 inside 63 controls without a mask: the joined mask has 64 bits. -/
theorem nested_controls_compose_cx :
    ∃ inner outer single, (Gate.fixed .cx).control 1 (some 0) = .ok inner ∧
      inner.control 63 none = .ok outer ∧
      (Gate.fixed .cx).control 64 (some 0x7fffffffffffffff) = .ok single ∧
      (∀ (α : Type) (operands : List α), outer.roles operands = single.roles operands) ∧
      inner.roles [0, 1, 2] = ⟨"x", [2], [1], [0]⟩ := by
  have hinner : (Gate.fixed .cx).control 1 (some 0) = .ok (.controlled "ccx" 1 (some 0) (.fixed .cx) none) := rfl
  obtain ⟨hjoin, hroles⟩ := nested_controls_compose hinner
  have hjoined : MaskJoins 63 1 none (some 0) (some 0x7fffffffffffffff) := by decide +kernel
  obtain ⟨single, hsingle, hsame⟩ := (hjoin 63 none _ rfl (by decide)).2 _ hjoined
  refine ⟨_, _, single, hinner, rfl, hsingle, hsame, hroles Nat [0] [1, 2] rfl ?_⟩
  rintro u label ⟨⟩

end CircuitCalls
