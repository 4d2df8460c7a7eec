import CircuitCalls.Circuit.Json
import CircuitCalls.Proofs.Building
import CircuitCalls.Proofs.Indices

/-!
# Registers of circuits that are read

The circuits that can be built are the valid ones whose registers of a kind have different names
(`sound_iff_built`). Reading a circuit checks its operations but not the names of its registers. One
that does have different names could also have been built, and its bits are numbered register by
register (`read_circuits_with_distinct_names`); one that repeats a name is read all the same
(`read_circuit_repeating_a_name`).
-/

namespace CircuitCalls

namespace Circuit

theorem read_eq_ok_iff {text : String} {c : Circuit} :
    read text = .ok c ↔ readUnchecked? text = some c ∧ c.validate = .ok () := by
  rw [read]
  cases readUnchecked? text with
  | none => simp
  | some c' =>
    cases hvalid : c'.validate with
    | ok u =>
      simp only [hvalid, Except.ok.injEq, Option.some.injEq]
      constructor
      · rintro rfl
        exact ⟨rfl, hvalid⟩
      · exact And.left
    | error e =>
      simp only [hvalid, Option.some.injEq, reduceCtorEq, false_iff, not_and]
      rintro rfl
      simp [hvalid]

/-! ## Building a given circuit -/

/-- The calls that declare the registers of a circuit and add its operations. -/
def calls (c : Circuit) : List CircuitCall :=
  c.qregs.map (fun r => .addQreg r.name r.size) ++ c.cregs.map (fun r => .addCreg r.name r.size) ++
    c.operations.map (fun op => .build (.append op))

theorem after_append (c : Circuit) (first second : List CircuitCall) :
    c.after (first ++ second) = (c.after first).after second := List.foldl_append

theorem after_cons {c c' : Circuit} {call : CircuitCall} (h : call.result c = .ok c')
    (rest : List CircuitCall) : c.after (call :: rest) = c'.after rest := by
  rw [after, List.foldl_cons, call.perform_eq, h]
  rfl

theorem findRegister?_eq_none_of_nodup {kind : BitKind} {before after : List (Register kind)}
    {r : Register kind} (h : ((before ++ r :: after).map (·.name)).Nodup) :
    findRegister? r.name before = none := by
  rw [findRegister?_eq_none_iff]
  intro hmem
  rw [List.map_append] at h
  exact (List.nodup_append.1 h).2.2 _ hmem _ (by simp) rfl

theorem after_addQregs {c : Circuit} {rs : List (Register .quantum)}
    (h : ((c.qregs ++ rs).map (·.name)).Nodup) :
    c.after (rs.map fun r => .addQreg r.name r.size) = { c with qregs := c.qregs ++ rs } := by
  induction rs generalizing c with
  | nil => simp [after]
  | cons r rest ih =>
    have hnew : c.qreg? r.name = none := findRegister?_eq_none_of_nodup h
    have hadd : CircuitCall.result c (.addQreg r.name r.size) =
        .ok { c with qregs := c.qregs ++ [r] } := by
      simp [CircuitCall.result, addQreg, hnew]
    rw [List.map_cons, after_cons hadd, ih (by simpa using h)]
    simp

theorem after_addCregs {c : Circuit} {rs : List (Register .classical)}
    (h : ((c.cregs ++ rs).map (·.name)).Nodup) :
    c.after (rs.map fun r => .addCreg r.name r.size) = { c with cregs := c.cregs ++ rs } := by
  induction rs generalizing c with
  | nil => simp [after]
  | cons r rest ih =>
    have hnew : c.creg? r.name = none := findRegister?_eq_none_of_nodup h
    have hadd : CircuitCall.result c (.addCreg r.name r.size) =
        .ok { c with cregs := c.cregs ++ [r] } := by
      simp [CircuitCall.result, addCreg, hnew]
    rw [List.map_cons, after_cons hadd, ih (by simpa using h)]
    simp

/-- Operations that a circuit admits can all be added to it. -/
theorem after_appends {c : Circuit} {ops : List Operation}
    (h : ∀ op ∈ Operation.nodesAll ops, c.Admits op) :
    c.after (ops.map fun op => .build (.append op)) =
      { c with operations := c.operations ++ ops } := by
  induction ops generalizing c with
  | nil => simp [after]
  | cons op rest ih =>
    rw [Operation.nodesAll, List.forall_mem_append] at h
    have hadd : CircuitCall.result c (.build (.append op)) =
        .ok { c with operations := c.operations ++ [op] } :=
      append_eq_ok_iff.2 ⟨h.1, rfl⟩
    rw [List.map_cons, after_cons hadd, ih fun o ho => (admits_congr c _ o).2 (h.2 o ho)]
    simp

theorem after_calls {c : Circuit} (hc : c.Sound) : (empty c.name).after c.calls = c := by
  have hqregs : (empty c.name).after (c.qregs.map fun r => .addQreg r.name r.size) =
      ⟨c.name, c.qregs, [], []⟩ := after_addQregs hc.names.quantum
  have hcregs : Circuit.after ⟨c.name, c.qregs, [], []⟩
      (c.cregs.map fun r => .addCreg r.name r.size) = ⟨c.name, c.qregs, c.cregs, []⟩ :=
    after_addCregs hc.names.classical
  have hoperations : Circuit.after ⟨c.name, c.qregs, c.cregs, []⟩
      (c.operations.map fun op => .build (.append op)) = c := by
    refine after_appends ?_
    intro op hop
    exact (admits_congr c [] op).2 (validate_eq_ok_iff.1 hc.valid op hop)
  rw [calls, after_append, after_append, hqregs, hcregs, hoperations]

/-- Building reaches every sound circuit, and no other. -/
theorem sound_iff_built {c : Circuit} : c.Sound ↔ ∃ calls, (empty c.name).after calls = c := by
  constructor
  · intro hc
    exact ⟨c.calls, after_calls hc⟩
  · rintro ⟨calls, hcalls⟩
    rw [← hcalls]
    exact sound_after (sound_empty c.name) calls

end Circuit

/-! ## Circuits that are read -/

/-- **Circuits that are read and do not repeat a name.** They are the ones that could have been built.
Numbered by declaration, as many bits are numbered as are declared, and the bits of a register follow
those of the registers of its kind before it. -/
theorem read_circuits_with_distinct_names {text : String} {c : Circuit}
    (h : Circuit.read text = .ok c) :
    (c.DistinctNames ↔ ∃ calls, (Circuit.empty c.name).after calls = c) ∧
    (c.DistinctNames →
      (∀ settings p, settings.discovery = .declared → c.emit settings = .ok p →
        p.qubitCount = c.qubitCount ∧ p.clbitCount = c.clbitCount) ∧
      (∀ before r after, c.qregs = before ++ r :: after → ∀ i < r.size,
        (c.numbering .declared).qubits.get? ⟨r.name, i⟩ = some (Register.total before + i.toNat)) ∧
      ∀ before r after, c.cregs = before ++ r :: after → ∀ i < r.size,
        (c.numbering .declared).clbits.get? ⟨r.name, i⟩ = some (Register.total before + i.toNat)) := by
  obtain ⟨-, hvalid⟩ := Circuit.read_eq_ok_iff.1 h
  refine ⟨?_, ?_⟩
  · rw [← Circuit.sound_iff_built]
    exact ⟨fun hnames => ⟨hnames, hvalid⟩, fun hc => hc.names⟩
  · intro hnames
    refine ⟨?_, ?_, ?_⟩
    · intro settings p hdeclared hp
      have hcounts := Circuit.counts_of_emit hp
      rw [hdeclared] at hcounts
      rw [hcounts.1, hcounts.2]
      exact ⟨Numbering.size_declared hnames.quantum, Numbering.size_declared hnames.classical⟩
    · intro before r after hregs i hi
      exact Numbering.place_declared hnames.quantum hregs hi
    · intro before r after hregs i hi
      exact Numbering.place_declared hnames.classical hregs hi

/-- Three registers and a measurement. -/
def threeRegisters : String :=
  "\x7b\"name\": \"three\", \"qregs\": [[\"a\", 2]], \"cregs\": [[\"c\", 1], [\"d\", 3]], " ++
    "\"operations\": [\x7b\"op\": \"measure\", \"qubits\": [[\"a\", 1]], \"clbits\": [[\"d\", 2]]\x7d]\x7d"

theorem read_circuits_with_distinct_names_threeRegisters :
    ∃ c p, Circuit.read threeRegisters = .ok c ∧ c.cregs = [⟨"c", 1⟩, ⟨"d", 3⟩] ∧ c.emit {} = .ok p ∧
      (∃ calls, (Circuit.empty c.name).after calls = c) ∧ p.clbitCount = c.clbitCount ∧
      (c.numbering .declared).clbits.get? ⟨"d", 2⟩ = some 3 := by
  have hvalue : ((Circuit.read threeRegisters).toOption.map fun c =>
      (c.qregs, c.cregs, (c.emit {}).toOption.isSome)) =
      some ([⟨"a", 2⟩], [⟨"c", 1⟩, ⟨"d", 3⟩], true) := by decide +kernel
  cases hread : Circuit.read threeRegisters with
  | error e =>
    rw [hread] at hvalue
    cases hvalue
  | ok c =>
    rw [hread] at hvalue
    obtain ⟨hqregs, hrest⟩ := Prod.mk.inj (Option.some.inj hvalue)
    obtain ⟨hcregs, hemit⟩ := Prod.mk.inj hrest
    obtain ⟨hbuilt, hdeclared⟩ := read_circuits_with_distinct_names hread
    have hnames : c.DistinctNames := ⟨by rw [hqregs]; decide, by rw [hcregs]; decide⟩
    obtain ⟨hcounts, -, hclbits⟩ := hdeclared hnames
    cases hp : c.emit {} with
    | error e =>
      rw [hp] at hemit
      cases hemit
    | ok p =>
      exact ⟨c, p, rfl, hcregs, hp, hbuilt.1 hnames, (hcounts {} p rfl hp).2,
        hclbits [⟨"c", 1⟩] ⟨"d", 3⟩ [] hcregs 2 (by decide)⟩

def repeatedRegister : String :=
  "\x7b\"name\": \"twice\", \"qregs\": [[\"q\", 1], [\"q\", 1]]\x7d"

/-- A circuit that repeats a name is read; it has two qubits, but only one of them gets a number. -/
theorem read_circuit_repeating_a_name :
    ∃ c p, Circuit.read repeatedRegister = .ok c ∧ ¬ (c.qregs.map (·.name)).Nodup ∧
      c.emit {} = .ok p ∧ c.qubitCount = 2 ∧ p.qubitCount = 1 :=
  ⟨⟨"twice", [⟨"q", 1⟩, ⟨"q", 1⟩], [], []⟩, _, rfl, by decide, rfl, rfl, rfl⟩

end CircuitCalls
