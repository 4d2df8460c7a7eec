import CircuitCalls.Proofs.ControlMarks

/-!
# What a gate does to its operands

`Gate.action` says it from the outside in: a wrapper takes its controls off the front of the operands, each
with the value that it has to have, and leaves the other operands to the gate inside. A standard gate takes
its implied controls off, and a custom gate by itself those of the mark in its name. Emission goes another
way: it collects the polarities of all controls first and splits the operands by them at the end. Both come
to the same roles (`action_eq_roles`).
-/

namespace CircuitCalls

/-! ## Names with a mark -/

/-- Whether a text is a mark of control. -/
def isControlMark : List Char → Bool
  | ['m', 'c'] => true
  | 'c' :: rest => rest.all (· == 'c') || rest.all Char.isDigit
  | _ => false

/-- The check of a mark by its characters agrees with the forms of a mark. -/
theorem isControlMark_iff {mark : List Char} : isControlMark mark = true ↔ ControlMark mark := by
  constructor
  · fun_cases isControlMark mark with
    | case1 => exact fun _ => .several
    | case2 rest =>
      intro h
      rcases Bool.or_eq_true_iff.1 h with hrow | hdigits
      · exact .of_row (List.all_eq_true.1 hrow)
      · cases rest with
        | nil => exact .row 0
        | cons d rest => exact .counted (List.cons_ne_nil d rest) (List.all_eq_true.1 hdigits)
    | case3 => intro h; cases h
  · intro h
    cases h with
    | several => rfl
    | counted _ hdigits => simpa [isControlMark] using .inr hdigits
    | row n => simp [isControlMark, List.replicate_succ]

namespace Gate

/-- Whether a name is a mark of control and `base`. -/
def marks (name base : String) : Bool := (base.toList.isSuffixOf? name.toList).any isControlMark

theorem marks_iff {name base : String} :
    marks name base = true ↔ ∃ mark : String, ControlMark mark.toList ∧ name = mark ++ base := by
  constructor
  · intro h
    cases hsuffix : base.toList.isSuffixOf? name.toList with
    | none => simp [marks, hsuffix] at h
    | some mark =>
      have hmark : isControlMark mark = true := by simpa [marks, hsuffix] using h
      refine ⟨String.ofList mark, ?_, String.toList_injective ?_⟩
      · rw [String.toList_ofList]
        exact isControlMark_iff.1 hmark
      · rw [String.toList_append, String.toList_ofList, List.isSuffixOf?_eq_some_iff_append_eq.1 hsuffix]
  · rintro ⟨mark, hmark, rfl⟩
    have hsuffix : base.toList.isSuffixOf? (mark ++ base).toList = some mark.toList := by
      rw [List.isSuffixOf?_eq_some_iff_append_eq, String.toList_append]
    rw [marks, hsuffix]
    exact isControlMark_iff.2 hmark

/-- The standard gate whose name stands behind a mark of control, and on how many qubits it is. -/
def markedRoot? (name : String) : Option (String × Nat) := rootNames.find? fun root => marks name root.1

/-- At most one split of a name leaves the name of a gate, so that the first one found is the one. -/
theorem markedRoot?_eq_some_iff {name base : String} {arity : Nat} :
    markedRoot? name = some (base, arity) ↔ ∃ mark, SplitsInto name mark base arity := by
  have hsplits : ∀ root, markedRoot? name = some root → ∃ mark, SplitsInto name mark root.1 root.2 := by
    intro root h
    rw [markedRoot?] at h
    have hmarks := List.find?_some h
    obtain ⟨mark, hmark, hname⟩ := marks_iff.1 hmarks
    exact ⟨mark, hmark, hname, List.mem_of_find?_eq_some h⟩
  constructor
  · exact hsplits (base, arity)
  · rintro ⟨mark, h⟩
    have hfound : (markedRoot? name).isSome = true := by
      rw [markedRoot?, List.find?_isSome]
      exact ⟨_, h.known, marks_iff.2 ⟨mark, h.marks, h.joined⟩⟩
    obtain ⟨root, hroot⟩ := Option.isSome_iff_exists.1 hfound
    obtain ⟨mark', h'⟩ := hsplits root hroot
    obtain ⟨-, hbase, harity⟩ := h.unique h'
    rw [hroot, ← hbase, ← harity]

end Gate

/-! ## Controls -/

/-- Whether the control at a place fires on 1. Without a mask all do. -/
def maskBit (mask : Option UInt64) (place : Nat) : Bool :=
  mask.all fun value => value.toNat.testBit place

theorem maskPolarity_eq_maskBit (controls : UInt32) (mask : Option UInt64) :
    maskPolarity controls mask = (List.range controls.toNat).map (maskBit mask) := by
  cases mask <;> rfl

namespace Roles

variable {α : Type}

/-- One more operand that has to have a value. -/
def control (operand : α) (value : Bool) (r : Roles α) : Roles α :=
  if value then { r with positive := operand :: r.positive }
  else { r with negative := operand :: r.negative }

theorem split_append (root : String) (first rest : List Bool) (operands : List α) :
    split root (first ++ rest) operands =
      (operands.zip first).foldr (fun x r => r.control x.1 x.2)
        (split root rest (operands.drop first.length)) := by
  induction first generalizing operands with
  | nil => simp
  | cons value first ih =>
    cases operands with
    | nil => simp [split]
    | cons operand operands =>
      rw [List.zip_cons_cons, List.foldr_cons, List.length_cons, List.drop_succ_cons, ← ih]
      cases value <;> simp [split, control]

end Roles

namespace Gate

variable {α : Type}

/-- What a gate does to its operands; `alone` tells whether no control stands in front of it. -/
def act (alone : Bool) : Gate → List α → Roles α
  | standard g _, operands => ⟨g.root.name, operands.drop g.controls, operands.take g.controls, []⟩
  | custom g _, operands =>
    match (markedRoot? g.name).filter fun root => alone && root.2 < operands.length with
    | some (base, arity) =>
      ⟨base, operands.drop (operands.length - arity), operands.take (operands.length - arity), []⟩
    | none => ⟨g.name, operands, [], []⟩
  | controlled _ controls mask base _, operands =>
    (operands.zip (List.range controls.toNat)).foldr (fun x r => r.control x.1 (maskBit mask x.2))
      (act (alone && controls == 0) base (operands.drop controls.toNat))

def action (g : Gate) (operands : List α) : Roles α := g.act true operands

/-- The plan of a marked name has a control for every operand in front of those of the root. -/
theorem markedPlan?_eq_markedRoot? (name : String) (operands : Nat) :
    markedPlan? name operands = ((markedRoot? name).filter fun root => root.2 < operands).map fun root =>
      ⟨root.1, List.replicate (operands - root.2) true⟩ := by
  refine Option.ext fun plan => ?_
  rw [markedPlan?_eq_some_iff_split, Option.map_eq_some_iff]
  constructor
  · rintro ⟨mark, base, arity, hsplits, hlt, rfl⟩
    have hroot := markedRoot?_eq_some_iff.2 ⟨mark, hsplits⟩
    exact ⟨(base, arity), by simp [hroot, hlt], rfl⟩
  · rintro ⟨⟨base, arity⟩, hroot, rfl⟩
    obtain ⟨hroot, hlt⟩ := Option.filter_eq_some_iff.1 hroot
    obtain ⟨mark, hsplits⟩ := markedRoot?_eq_some_iff.1 hroot
    exact ⟨mark, base, arity, hsplits, of_decide_eq_true hlt, rfl⟩

/-- The plan of a gate under wrappers adds polarities to theirs, and the gate acts by those it adds. -/
theorem exists_planUnder (g : Gate) (total : Nat) (outer : List Bool) (operands : List α)
    (htotal : outer = [] → total = operands.length) :
    ∃ polarity, (planUnder total outer g).polarity = outer ++ polarity ∧
      g.act outer.isEmpty operands = .split (planUnder total outer g).root polarity operands := by
  induction g generalizing outer operands with
  | standard g label =>
    exact ⟨List.replicate g.controls true, rfl, (Roles.split_replicate _ _ _).symm⟩
  | custom g label =>
    have hnone : Roles.split g.name [] operands = ⟨g.name, operands, [], []⟩ := by simp [Roles.split]
    cases outer with
    | cons value outer => exact ⟨[], by simp [planUnder], by simp [planUnder, act, hnone]⟩
    | nil =>
      have htotal := htotal rfl
      subst htotal
      rw [planUnder, markedPlan?_eq_markedRoot?, act]
      simp only [List.isEmpty_nil, if_true, Bool.true_and]
      cases (markedRoot? g.name).filter fun root => root.2 < operands.length with
      | none => exact ⟨[], rfl, hnone.symm⟩
      | some root =>
        exact ⟨List.replicate (operands.length - root.2) true, rfl, (Roles.split_replicate _ _ _).symm⟩
  | controlled name controls mask base label ih =>
    have hlength : (maskPolarity controls mask).length = controls.toNat := by simp [maskPolarity]
    have halone : (outer ++ maskPolarity controls mask).isEmpty = (outer.isEmpty && controls == 0) := by
      cases outer with
      | cons value outer => rfl
      | nil =>
        rw [Bool.eq_iff_iff]
        simp [maskPolarity, ← UInt32.toNat_inj]
    have hrest : outer ++ maskPolarity controls mask = [] →
        total = (operands.drop controls.toNat).length := by
      intro hnil
      obtain ⟨houter, hmask⟩ := List.append_eq_nil_iff.1 hnil
      have hzero : controls.toNat = 0 := by rw [← hlength, hmask, List.length_nil]
      rw [htotal houter, hzero, List.drop_zero]
    obtain ⟨polarity, hpolarity, hact⟩ := ih _ (operands.drop controls.toNat) hrest
    refine ⟨maskPolarity controls mask ++ polarity, ?_, ?_⟩
    · rw [planUnder, hpolarity, List.append_assoc]
    · rw [act, ← halone, hact, planUnder, Roles.split_append, hlength, maskPolarity_eq_maskBit,
        List.zip_map_right, List.foldr_map]
      rfl

/-- What a gate does is what it is emitted as. -/
theorem action_eq_roles (g : Gate) (operands : List α) : g.action operands = g.roles operands := by
  obtain ⟨polarity, hpolarity, hact⟩ := g.exists_planUnder operands.length [] operands fun _ => rfl
  rw [List.nil_append] at hpolarity
  rw [action]
  refine hact.trans ?_
  rw [← hpolarity]
  rfl

end Gate

end CircuitCalls
