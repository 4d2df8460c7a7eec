import CircuitCalls.Proofs.Patterns
import CircuitCalls.Proofs.Roles

/-!
# Marks of control in a name

A custom gate can be a controlled standard gate by its name: `mcx`, `c3sx` and `ccz` have a mark of control
in front of the name of a gate without controls. The marks overlap. A row of `c` has shorter rows in front
of it, and a search for a mark that prefers the first kind and the longest row may still have to go back to
a shorter one. None of this shows in the result, for no standard name goes on where a mark could have: it
starts with neither a `c` nor a digit. So a name splits in at most one way, and a plain walk over the front
of the name and the search find the same gates (`control_marks_are_stripped`).
-/

namespace CircuitCalls

/-! ## Marks -/

/-- A mark of control. -/
inductive ControlMark : List Char → Prop where
  | several : ControlMark ['m', 'c']
  | counted {digits : List Char} :
      digits ≠ [] → (∀ c ∈ digits, c.isDigit = true) → ControlMark ('c' :: digits)
  | row (n : Nat) : ControlMark (List.replicate (n + 1) 'c')

/-- The text does not start as a mark goes on. -/
def EndsMark (text : List Char) : Prop := ∀ c ∈ text.head?, c ≠ 'c' ∧ c.isDigit = false

namespace EndsMark

variable {text : List Char}

theorem not_digit (h : EndsMark text) : ∀ c ∈ text.head?, c.isDigit = false := fun c hc => (h c hc).2

theorem not_row (h : EndsMark text) : ∀ c ∈ text.head?, (c == 'c') = false :=
  fun c hc => beq_eq_false_iff_ne.2 (h c hc).1

/-- No number follows the first `c` of a row. -/
theorem not_digit_row (h : EndsMark text) (n : Nat) :
    ∀ c ∈ (List.replicate n 'c' ++ text).head?, c.isDigit = false := by
  cases n with
  | zero => exact h.not_digit
  | succ n =>
    rintro c ⟨⟩
    rfl

end EndsMark

theorem ControlMark.of_row {cs : List Char} (h : ∀ c ∈ cs, (c == 'c') = true) :
    ControlMark ('c' :: cs) := by
  have hcs : cs = List.replicate cs.length 'c' :=
    List.eq_replicate_iff.2 ⟨rfl, fun c hc => beq_iff_eq.1 (h c hc)⟩
  rw [hcs, ← List.replicate_succ]
  exact .row _

namespace Pattern

/-- The pattern of a mark: `mc`, or a `c` and its number, or a row of `c`. -/
def controlMark : Pattern :=
  either (seq (one (· == 'm')) (one (· == 'c')))
    (either (seq (one (· == 'c')) (seq (one Char.isDigit) (many Char.isDigit)))
      (seq (one (· == 'c')) (many (· == 'c'))))

/-- The pattern of what stands behind a mark: a small letter, and more on the same line. -/
def gateText : Pattern := seq (one Char.isLower) (many (· != '\n'))

/-- What stands behind the mark in a text that is a mark and a gate to its end. Where the text behind a mark
is not that of a gate, the search goes back to the next way to take the mark. -/
def behindMark? (text : List Char) : Option (List Char) :=
  (controlMark.leaves text).find? fun rest => (gateText.leaves rest).contains []

theorem controlMark_of_takes {mark : List Char} (h : controlMark.Takes mark) : ControlMark mark := by
  rcases h with h | h | h
  · obtain ⟨_, _, ⟨m, hm, rfl⟩, ⟨c, hc, rfl⟩, rfl⟩ := h
    rw [beq_iff_eq.1 hm, beq_iff_eq.1 hc]
    exact .several
  · obtain ⟨_, _, ⟨c, hc, rfl⟩, ⟨_, digits, ⟨d, hd, rfl⟩, hdigits, rfl⟩, rfl⟩ := h
    rw [beq_iff_eq.1 hc]
    exact .counted (List.cons_ne_nil d digits) (List.forall_mem_cons.2 ⟨hd, hdigits⟩)
  · obtain ⟨_, cs, ⟨c, hc, rfl⟩, hcs, rfl⟩ := h
    rw [beq_iff_eq.1 hc]
    exact .of_row hcs

/-- The search takes a mark whole at first, where what stands behind it ends it. -/
theorem leaves_controlMark {mark rest : List Char} (hmark : ControlMark mark) (hrest : EndsMark rest) :
    ∃ more, controlMark.leaves (mark ++ rest) = rest :: more := by
  -- The kinds before that of the mark take nothing, so its longest row comes first.
  cases hmark with
  | several => exact ⟨[], rfl⟩
  | @counted digits hne hdigits =>
    obtain ⟨d, ds, rfl⟩ := List.exists_cons_of_ne_nil hne
    obtain ⟨hd, hds⟩ := List.forall_mem_cons.1 hdigits
    obtain ⟨more, hmore⟩ := leavesMany_append hds hrest.not_digit
    simp [controlMark, leaves, hd, hmore]
  | row n =>
    have hcs : ∀ c ∈ List.replicate n 'c', (c == 'c') = true := by simp
    obtain ⟨more, hmore⟩ := leavesMany_append hcs hrest.not_row
    have hcounted := leaves_one_eq_nil (hrest.not_digit_row n)
    simp [controlMark, leaves, List.replicate_succ, hcounted, hmore]

theorem mark_of_behindMark? {text rest : List Char} (h : behindMark? text = some rest) :
    ∃ mark, ControlMark mark ∧ text = mark ++ rest := by
  obtain ⟨mark, htakes, htext⟩ := mem_leaves.1 (List.mem_of_find?_eq_some h)
  exact ⟨mark, controlMark_of_takes htakes, htext⟩

theorem behindMark?_append {mark rest : List Char} (hmark : ControlMark mark) (hrest : EndsMark rest)
    (hgate : (gateText.leaves rest).contains [] = true) : behindMark? (mark ++ rest) = some rest := by
  obtain ⟨more, hmore⟩ := leaves_controlMark hmark hrest
  rw [behindMark?, hmore]
  exact List.find?_cons_of_pos hgate

end Pattern

namespace Gate

theorem dropWhile_append {p : Char → Bool} {taken rest : List Char} (htaken : ∀ c ∈ taken, p c = true)
    (hrest : ∀ c ∈ rest.head?, p c = false) : (taken ++ rest).dropWhile p = rest := by
  rw [List.dropWhile_append_of_pos htaken]
  cases rest with
  | nil => rfl
  | cons c rest => exact List.dropWhile_cons_of_neg (by simp [hrest c rfl])

theorem unmarked?_cons (rest : List Char) :
    unmarked? ('c' :: rest) =
      if (rest.head?.map Char.isDigit).getD false then some (rest.dropWhile Char.isDigit)
      else some (rest.dropWhile (· == 'c')) := rfl

/-- A mark is taken whole where the text behind it does not go on with it. -/
theorem unmarked?_append {mark rest : List Char} (hmark : ControlMark mark) (hrest : EndsMark rest) :
    unmarked? (mark ++ rest) = some rest := by
  cases hmark with
  | several => rfl
  | @counted digits hne hdigits =>
    obtain ⟨d, ds, rfl⟩ := List.exists_cons_of_ne_nil hne
    have hfirst : (((d :: ds) ++ rest).head?.map Char.isDigit).getD false = true :=
      (List.forall_mem_cons.1 hdigits).1
    rw [List.cons_append, unmarked?_cons, if_pos hfirst, dropWhile_append hdigits hrest.not_digit]
  | row n =>
    have hcs : ∀ c ∈ List.replicate n 'c', (c == 'c') = true := by simp
    have hfirst := hrest.not_digit_row n
    rw [List.replicate_succ, List.cons_append, unmarked?_cons, dropWhile_append hcs hrest.not_row]
    cases hhead : (List.replicate n 'c' ++ rest).head? with
    | none => rfl
    | some c => simp [hfirst c hhead]

/-- What is taken off a name is a mark. -/
theorem mark_of_unmarked? {text rest : List Char} (h : unmarked? text = some rest) :
    ∃ mark, ControlMark mark ∧ text = mark ++ rest := by
  revert h
  fun_cases unmarked? text with
  | case1 text =>
    rintro ⟨⟩
    exact ⟨['m', 'c'], .several, rfl⟩
  | case2 text hfirst =>
    rintro ⟨⟩
    refine ⟨'c' :: text.takeWhile Char.isDigit, .counted ?_ (List.all_eq_true.1 List.all_takeWhile), ?_⟩
    · cases text with
      | nil => cases hfirst
      | cons d text =>
        have hd : d.isDigit = true := hfirst
        rw [List.takeWhile_cons_of_pos hd]
        exact List.cons_ne_nil _ _
    · rw [List.cons_append, List.takeWhile_append_dropWhile]
  | case3 text hfirst =>
    rintro ⟨⟩
    refine ⟨'c' :: text.takeWhile (· == 'c'), .of_row (List.all_eq_true.1 List.all_takeWhile), ?_⟩
    rw [List.cons_append, List.takeWhile_append_dropWhile]
  | case4 => intro h; cases h

/-! ## Names of gates without controls -/

/-- The names of the standard gates without controls, and on how many qubits each is. -/
def rootNames : List (String × Nat) :=
  [("id", 1), ("x", 1), ("y", 1), ("z", 1), ("h", 1), ("s", 1), ("sdg", 1), ("t", 1), ("tdg", 1),
    ("sx", 1), ("sxdg", 1), ("rx", 1), ("ry", 1), ("rz", 1), ("p", 1), ("u", 1), ("swap", 2),
    ("iswap", 2), ("rxx", 2), ("ryy", 2), ("rzz", 2)]

theorem rootArity?_eq_some_iff_mem {name : String} {arity : Nat} :
    StandardGate.rootArity? name = some arity ↔ (name, arity) ∈ rootNames := by
  constructor
  · intro h
    obtain ⟨s, hcontrols, rfl, rfl⟩ := StandardGate.rootArity?_eq_some_iff.1 h
    cases s with
    | fixed g =>
      have hmem : g.controls = 0 → (g.name, g.arity) ∈ rootNames := by cases g <;> decide
      exact hmem hcontrols
    | rotation g angle =>
      have hmem : g.controls = 0 → (g.name, g.arity) ∈ rootNames := by cases g <;> decide
      exact hmem hcontrols
    | u theta phi lambda =>
      have hmem : ("u", 1) ∈ rootNames := by decide
      exact hmem
  · intro h
    have hall : ∀ entry ∈ rootNames, StandardGate.rootArity? entry.1 = some entry.2 := by decide
    exact hall _ h

theorem rootNames_text {name : String} {arity : Nat} (h : (name, arity) ∈ rootNames) :
    EndsMark name.toList ∧ (Pattern.gateText.leaves name.toList).contains [] = true ∧ 0 < arity := by
  have hall : ∀ entry ∈ rootNames,
      entry.1.toList.head?.all (fun c => c != 'c' && !c.isDigit) = true ∧
        (Pattern.gateText.leaves entry.1.toList).contains [] = true ∧ 0 < entry.2 := by
    decide +kernel
  obtain ⟨hends, hgate, hpos⟩ := hall _ h
  refine ⟨fun c hc => ?_, hgate, hpos⟩
  rw [Option.mem_def.1 hc] at hends
  simpa using hends

/-! ## Splitting a name -/

/-- The name is a mark of control and the name of a standard gate without controls on `arity` qubits. -/
structure SplitsInto (name mark base : String) (arity : Nat) : Prop where
  marks : ControlMark mark.toList
  joined : name = mark ++ base
  known : (base, arity) ∈ rootNames

/-- The controlled standard gate of a name, as the search for a mark finds it. -/
def searchedPlan? (name : String) (operands : Nat) : Option ControlPlan :=
  if operands < 2 then none
  else do
    let base ← Pattern.behindMark? name.toList
    let arity ← StandardGate.rootArity? (String.ofList base)
    if operands ≤ arity then none
    else some ⟨String.ofList base, List.replicate (operands - arity) true⟩

variable {name mark base : String} {arity operands : Nat}

theorem SplitsInto.unmarked? (h : SplitsInto name mark base arity) :
    Gate.unmarked? name.toList = some base.toList := by
  rw [h.joined, String.toList_append]
  exact unmarked?_append h.marks (rootNames_text h.known).1

theorem SplitsInto.behindMark? (h : SplitsInto name mark base arity) :
    Pattern.behindMark? name.toList = some base.toList := by
  rw [h.joined, String.toList_append]
  obtain ⟨hends, hgate, -⟩ := rootNames_text h.known
  exact Pattern.behindMark?_append h.marks hends hgate

theorem exists_splits {rest : List Char}
    (h : ∃ mark, ControlMark mark ∧ name.toList = mark ++ rest)
    (harity : StandardGate.rootArity? (String.ofList rest) = some arity) :
    ∃ mark, SplitsInto name mark (String.ofList rest) arity := by
  obtain ⟨mark, hmark, hname⟩ := h
  refine ⟨String.ofList mark, by rwa [String.toList_ofList], ?_, rootArity?_eq_some_iff_mem.1 harity⟩
  rw [← String.ofList_append, ← hname, String.ofList_toList]

/-- A name splits in one way at most. -/
theorem SplitsInto.unique {mark' base' : String} {arity' : Nat} (h : SplitsInto name mark base arity)
    (h' : SplitsInto name mark' base' arity') : mark' = mark ∧ base' = base ∧ arity' = arity := by
  have hbase : base' = base := by
    have hchars := h'.unmarked?.symm.trans h.unmarked?
    exact String.toList_injective (Option.some.inj hchars)
  subst hbase
  refine ⟨?_, rfl, ?_⟩
  · exact (String.append_left_inj base').1 (h'.joined.symm.trans h.joined)
  · have harity := rootArity?_eq_some_iff_mem.2 h.known
    rw [rootArity?_eq_some_iff_mem.2 h'.known] at harity
    exact Option.some.inj harity

def SplitPlan (name : String) (operands : Nat) (plan : ControlPlan) : Prop :=
  ∃ mark base arity, SplitsInto name mark base arity ∧ arity < operands ∧
    plan = ⟨base, List.replicate (operands - arity) true⟩

theorem markedPlan?_eq_some_iff_split {plan : ControlPlan} :
    markedPlan? name operands = some plan ↔ SplitPlan name operands plan := by
  unfold markedPlan?
  constructor
  · intro h
    obtain ⟨rest, hrest, h⟩ := Option.bind_eq_some_iff.1 h
    obtain ⟨arity, harity, h⟩ := Option.bind_eq_some_iff.1 h
    obtain ⟨hlt, h⟩ := Option.ite_none_right_eq_some.1 h
    obtain ⟨mark, hsplits⟩ := exists_splits (mark_of_unmarked? hrest) harity
    exact ⟨mark, String.ofList rest, arity, hsplits, hlt, (Option.some.inj h).symm⟩
  · rintro ⟨mark, base, arity, hsplits, hlt, rfl⟩
    simp [hsplits.unmarked?, rootArity?_eq_some_iff_mem.2 hsplits.known, hlt]

/-- The search for a mark finds a plan exactly if the name can be split. -/
theorem searchedPlan?_eq_some_iff_split {plan : ControlPlan} :
    searchedPlan? name operands = some plan ↔ SplitPlan name operands plan := by
  unfold searchedPlan?
  constructor
  · intro h
    obtain ⟨-, h⟩ := Option.ite_none_left_eq_some.1 h
    obtain ⟨rest, hrest, h⟩ := Option.bind_eq_some_iff.1 h
    obtain ⟨arity, harity, h⟩ := Option.bind_eq_some_iff.1 h
    obtain ⟨hlt, h⟩ := Option.ite_none_left_eq_some.1 h
    obtain ⟨mark, hsplits⟩ := exists_splits (Pattern.mark_of_behindMark? hrest) harity
    exact ⟨mark, String.ofList rest, arity, hsplits, Nat.lt_of_not_le hlt, (Option.some.inj h).symm⟩
  · rintro ⟨mark, base, arity, hsplits, hlt, rfl⟩
    obtain ⟨-, -, hpos⟩ := rootNames_text hsplits.known
    have htwo : ¬ operands < 2 := by omega
    simp [hsplits.behindMark?, rootArity?_eq_some_iff_mem.2 hsplits.known, htwo, Nat.not_le.2 hlt]

/-! ## Operands of a gate with a mark -/

variable {α : Type} {u : CustomGate} (label : Option String) {qubits : List α}

theorem roles_of_splits (h : SplitsInto u.name mark base arity) (hlt : arity < qubits.length) :
    (custom u label).roles qubits =
      ⟨base, qubits.drop (qubits.length - arity), qubits.take (qubits.length - arity), []⟩ := by
  have hplan := markedPlan?_eq_some_iff_split.2 ⟨mark, base, arity, h, hlt, rfl⟩
  have hroles : (custom u label).roles qubits =
      .split base (List.replicate (qubits.length - arity) true) qubits := by
    simp [roles, plan, planUnder, hplan, Roles.split]
  rw [hroles, Roles.split_replicate]

theorem roles_of_not_splits (h : ∀ mark base arity, SplitsInto u.name mark base arity → qubits.length ≤ arity) :
    (custom u label).roles qubits = ⟨u.name, qubits, [], []⟩ := by
  have hplan : markedPlan? u.name qubits.length = none := by
    refine Option.eq_none_iff_forall_ne_some.2 fun plan hplan => ?_
    obtain ⟨mark, base, arity, hsplits, hlt, -⟩ := markedPlan?_eq_some_iff_split.1 hplan
    have := h mark base arity hsplits
    omega
  simp [roles, plan, planUnder, hplan]

/-- **Marks of control are stripped.** A custom name is taken for a controlled gate exactly if it is a mark
of control and the name of a standard gate that leaves an operand for a control; every control fires on 1. No
name is that in two ways, and the search for a mark finds the same gate. The last operands are the targets, as
many as the standard gate has qubits; without such a split all operands are. -/
theorem control_marks_are_stripped (name : String) (operands : Nat) :
    (∀ plan, markedPlan? name operands = some plan ↔
      ∃ mark base arity, SplitsInto name mark base arity ∧ arity < operands ∧
        plan = ⟨base, List.replicate (operands - arity) true⟩) ∧
    (∀ mark base arity mark' base' arity', SplitsInto name mark base arity →
      SplitsInto name mark' base' arity' → mark' = mark ∧ base' = base ∧ arity' = arity) ∧
    searchedPlan? name operands = markedPlan? name operands ∧
    ∀ (u : CustomGate) (label : Option String) (qubits : List α), u.name = name → qubits.length = operands →
      (∀ mark base arity, SplitsInto name mark base arity → arity < operands →
        (custom u label).roles qubits =
          ⟨base, qubits.drop (operands - arity), qubits.take (operands - arity), []⟩ ∧
        ((custom u label).roles qubits).targets.length = arity) ∧
      ((∀ mark base arity, SplitsInto name mark base arity → operands ≤ arity) →
        (custom u label).roles qubits = ⟨name, qubits, [], []⟩) := by
  refine ⟨fun plan => markedPlan?_eq_some_iff_split, fun _ _ _ _ _ _ h h' => h.unique h', ?_, ?_⟩
  · refine Option.ext fun plan => ?_
    rw [searchedPlan?_eq_some_iff_split, markedPlan?_eq_some_iff_split]
  · rintro u label qubits rfl rfl
    refine ⟨fun mark base arity h hlt => ?_, roles_of_not_splits label⟩
    have hroles := roles_of_splits label h hlt
    refine ⟨hroles, ?_⟩
    rw [hroles, List.length_drop]
    omega

-- The search goes back to a shorter row here and leaves another text than the walk; neither is a gate.
example : Pattern.behindMark? "cc5x".toList = some "c5x".toList ∧ unmarked? "cc5x".toList = some "5x".toList ∧
    markedPlan? "cc5x" 4 = none := by
  decide +kernel

end Gate

end CircuitCalls
