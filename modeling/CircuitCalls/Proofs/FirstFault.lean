import CircuitCalls.Proofs.Compilability
import CircuitCalls.Proofs.Paths
import Mathlib.Data.List.Induction

/-!
# Which error an emission ends with

`Circuit.fault?` says of a single operation what keeps it from being emitted: a directive, an operand
without a number, a condition on an unnumbered bit or on an undeclared register, a loop that cannot be
counted. An emission fails exactly if some operation of the circuit has a fault, and its error is the
fault of the first such operation in document order, with the path of that operation
(`emission_error_is_first_fault`).
-/

namespace CircuitCalls

theorem bind_ok_eq_error_iff {ε α β : Type} {x : Except ε α} {f : α → β} {e : ε} :
    (x >>= fun a => .ok (f a)) = .error e ↔ x = .error e := by
  cases x <;> simp

/-! ## Faults of single operations -/

/-- The first of some bits that has no number. -/
def Numbering.unnumbered? {kind : BitKind} (n : Numbering kind) (bits : List (Bit kind)) :
    Option (Bit kind) :=
  bits.find? fun b => (n.get? b).isNone

def Iteration.fault? : Iteration → Option EmitFault
  | range _ _ step => if step = 0 then some .zeroStep else none
  | values _ => none
  | count rounds => if roundLimit ≤ rounds.toNat then some (.countTooLarge rounds) else none

namespace Circuit

/-- What is wrong with a condition. -/
def conditionFault? (c : Circuit) (n : CircuitNumbering) (condition : Condition) : Option EmitFault :=
  match condition.target with
  | .bit b => if b ∈ n.clbits.bits then none else some (.unresolvedClbit b)
  | .register name => if (c.creg? name).isSome then none else some (.unresolvedRegister name)

/-- What keeps an operation from being emitted, apart from those inside it. -/
def fault? (c : Circuit) (n : CircuitNumbering) : Operation → Option EmitFault
  | .gate _ qubits => (n.qubits.unnumbered? qubits).map .unresolvedQubit
  | .measure qubits clbits =>
    ((n.qubits.unnumbered? qubits).map .unresolvedQubit).or
      ((n.clbits.unnumbered? clbits).map .unresolvedClbit)
  | .ifElse condition _ _ => c.conditionFault? n condition
  | .whileLoop condition _ => c.conditionFault? n condition
  | .forLoop iteration _ _ => iteration.fault?
  | .directive d _ => some (.unknownOperation d.name)

end Circuit

theorem Numbering.mapM_resolve_eq_error_iff_unnumbered {kind : BitKind} {n : Numbering kind}
    {fault : Bit kind → EmitFault} {bits : List (Bit kind)} {e : EmitFault} :
    bits.mapM (n.resolve fault) = .error e ↔ (n.unnumbered? bits).map fault = some e := by
  simp only [mapM_resolve_eq_error_iff, unnumbered?, Option.map_eq_some_iff,
    List.find?_eq_some_iff_append, Bool.not_eq_true', Option.isNone_iff_eq_none,
    Option.isNone_eq_false_iff, Option.isSome_iff_ne_none, ne_eq, get?_eq_none_iff, not_not]
  constructor
  · rintro ⟨before, b, after, hbits, hbefore, hb, rfl⟩
    exact ⟨b, ⟨hb, before, after, hbits, hbefore⟩, rfl⟩
  · rintro ⟨b, ⟨hb, before, after, hbits, hbefore⟩, rfl⟩
    exact ⟨before, b, after, hbits, hbefore, hb, rfl⟩

namespace Surroundings

variable {s : Surroundings}

theorem header_eq_error_iff {loopVar : String} {iteration : Iteration} {fault : EmitFault} :
    header loopVar iteration = .error fault ↔ iteration.fault? = some fault := by
  cases iteration with
  | range start stop step => by_cases h : step = 0 <;> simp [header, Iteration.fault?, h]
  | values items => simp [header, Iteration.fault?]
  | count rounds =>
    by_cases h : rounds.toNat < roundLimit
    · simp [header, Iteration.fault?, h]
    · simp [header, Iteration.fault?, h, Nat.le_of_not_lt h]

/-- The bits of a register that a condition names are numbered. -/
def NumbersRegister (s : Surroundings) (condition : Condition) : Prop :=
  ∀ name, condition.target = .register name →
    ∀ b ∈ s.circuit.conditionBits condition, b ∈ s.numbering.clbits.bits

/-- The fault of a condition is that of the first bit without a number, or of its register. -/
theorem guard_eq_error_iff {condition : Condition} {fault : EmitFault}
    (hregister : s.NumbersRegister condition) :
    s.guard condition = .error fault ↔
      s.circuit.conditionFault? s.numbering condition = some fault := by
  unfold guard Circuit.conditionFault? Circuit.readBits
  cases ht : condition.target with
  | bit b =>
    simp only [ok_bind, pure_eq_ok, bind_ok_eq_error_iff, Numbering.resolveClbits,
      Numbering.mapM_resolve_eq_error_iff_unnumbered, Numbering.unnumbered?]
    by_cases hb : b ∈ s.numbering.clbits.bits <;> simp [Numbering.get?_eq_none_iff, hb]
  | register name =>
    cases hr : s.circuit.creg? name with
    | none => simp [hr]
    | some r =>
      have hbits : ∀ b ∈ r.bits, b ∈ s.numbering.clbits.bits := by
        have hall := hregister name ht
        simpa [Circuit.conditionBits, ht, hr] using hall
      have hresolve : s.numbering.clbits.resolveClbits r.bits = .ok (r.bits.map s.numbering.clbits.place) :=
        Numbering.mapM_resolve_eq_ok_iff.2 ⟨hbits, rfl⟩
      simp [hr, hresolve]

/-- The first call of an operation cannot be made exactly if the operation has a fault. -/
theorem firstCall_eq_error_iff {scope : Scope} {op : Operation} {fault : EmitFault}
    (hregister : ∀ condition, op.condition? = some condition → s.NumbersRegister condition) :
    s.firstCall scope op = .error fault ↔ s.circuit.fault? s.numbering op = some fault := by
  cases op with
  | gate g qubits =>
    exact bind_ok_eq_error_iff.trans Numbering.mapM_resolve_eq_error_iff_unnumbered
  | measure qubits clbits =>
    cases hq : s.numbering.qubits.resolveQubits qubits with
    | error e =>
      have he := Numbering.mapM_resolve_eq_error_iff_unnumbered.1 hq
      simp [firstCall, Circuit.fault?, hq, he]
    | ok qs =>
      have hnone : s.numbering.qubits.unnumbered? qubits = none := by
        have hall := (Numbering.mapM_resolve_eq_ok_iff.1 hq).1
        simpa [Numbering.unnumbered?, Numbering.get?_eq_none_iff] using hall
      simp only [firstCall, hq, ok_bind, Circuit.fault?, hnone, Option.map_none, Option.none_or]
      exact bind_ok_eq_error_iff.trans Numbering.mapM_resolve_eq_error_iff_unnumbered
  | ifElse condition thenBody elseBody =>
    exact bind_ok_eq_error_iff.trans (guard_eq_error_iff (hregister condition rfl))
  | whileLoop condition body =>
    exact bind_ok_eq_error_iff.trans (guard_eq_error_iff (hregister condition rfl))
  | forLoop iteration loopVar body => exact bind_ok_eq_error_iff.trans header_eq_error_iff
  | directive d qubits => simp [firstCall, Circuit.fault?]

end Surroundings

/-! ## The error of an emission -/

namespace Circuit

variable {c : Circuit} {settings : Settings}

/-- However bits are numbered, those of a declared register that a condition reads are among them. -/
theorem numbersRegister_of_mem_nodes {op : Operation} (hop : op ∈ c.nodes) (settings : Settings)
    (condition : Condition) (hcondition : op.condition? = some condition) :
    (c.surroundings settings).NumbersRegister condition := by
  intro name ht b hb
  change b ∈ (c.numbering settings.discovery).clbits.bits
  change b ∈ c.conditionBits condition at hb
  cases settings.discovery with
  | referenced =>
    refine mem_referenced_clbits.2 ⟨op, hop, ?_⟩
    simp [usedClbits, hcondition, hb]
  | declared =>
    refine mem_declared_clbits.2 (hasClbit_of_declares ?_ hb)
    rw [ht, Declares, Option.isSome_iff_ne_none]
    intro hnone
    simp [conditionBits, ht, hnone] at hb

theorem attempt_eq_error_iff {o : Occurrence} (ho : o ∈ c.occurrences) {e : EmitError} :
    (c.surroundings settings).attempt o = .error e ↔
      c.fault? (c.numbering settings.discovery) o.operation = some e.fault ∧ o.path = e.path := by
  have hregister := numbersRegister_of_mem_nodes (operation_mem_nodes ho) settings
  rw [Surroundings.attempt_eq_error_iff, Surroundings.firstCall_eq_error_iff hregister]
  rfl

/-- Whether the first call can be made does not depend on the loops around the operation. -/
theorem attempt_eq_ok_iff {o : Occurrence} (ho : o ∈ c.occurrences) :
    (c.surroundings settings).attempt o = .ok () ↔
      c.fault? (c.numbering settings.discovery) o.operation = none := by
  constructor
  · intro hok
    cases hfault : c.fault? (c.numbering settings.discovery) o.operation with
    | none => rfl
    | some fault =>
      have herror : (c.surroundings settings).attempt o = .error ⟨fault, o.path⟩ :=
        (attempt_eq_error_iff ho).2 ⟨hfault, rfl⟩
      rw [hok] at herror
      cases herror
  · intro hnone
    cases hattempt : (c.surroundings settings).attempt o with
    | ok u => rfl
    | error e =>
      have hfault := ((attempt_eq_error_iff ho).1 hattempt).1
      rw [hnone] at hfault
      cases hfault

/-- Emission fails at the first operation with a fault, and reports that fault there. -/
theorem emit_eq_error_iff {e : EmitError} :
    c.emit settings = .error e ↔
      ∃ before o after, c.occurrences = before ++ o :: after ∧
        (∀ x ∈ before, c.fault? (c.numbering settings.discovery) x.operation = none) ∧
        c.fault? (c.numbering settings.discovery) o.operation = some e.fault ∧ o.path = e.path := by
  have hforM : c.emit settings = .error e ↔
      forM c.occurrences (c.surroundings settings).attempt = .error e := by
    rw [← emit_attempt]
    cases c.emit settings <;> simp
  rw [hforM, forM_eq_error_iff]
  refine exists_congr fun before => exists_congr fun o => exists_congr fun after =>
    and_congr_right fun hsplit => ?_
  have ho : o ∈ c.occurrences := by simp [hsplit]
  have hbefore : ∀ x ∈ before, x ∈ c.occurrences := by
    intro x hx
    simp [hsplit, hx]
  exact and_congr (forall₂_congr fun x hx => attempt_eq_ok_iff (hbefore x hx)) (attempt_eq_error_iff ho)

/-- A circuit is emitted unless one of its operations has a fault. -/
theorem exists_error_iff :
    (∃ e, c.emit settings = .error e) ↔
      ∃ o ∈ c.occurrences, c.fault? (c.numbering settings.discovery) o.operation ≠ none := by
  constructor
  · rintro ⟨e, he⟩
    obtain ⟨before, o, after, hsplit, -, hfault, -⟩ := emit_eq_error_iff.1 he
    exact ⟨o, by simp [hsplit], by simp [hfault]⟩
  · rintro ⟨o, ho, hfault⟩
    cases hemit : c.emit settings with
    | error e => exact ⟨e, rfl⟩
    | ok p =>
      have hall : forM c.occurrences (c.surroundings settings).attempt = .ok () := by
        rw [← emit_attempt, hemit]
        rfl
      exact absurd ((attempt_eq_ok_iff ho).1 (forM_eq_ok_iff.1 hall o ho)) hfault

end Circuit

/-! ## The position in a message -/

/-- The word for a place in a body of an operation. -/
inductive Place.Word : Place → String → Prop
  | thenBody (j : Nat) : Word ⟨.thenBody, j⟩ ("then[" ++ toString j ++ "]")
  | elseBody (j : Nat) : Word ⟨.elseBody, j⟩ ("else[" ++ toString j ++ "]")
  | loopBody (j : Nat) : Word ⟨.loopBody, j⟩ ("body[" ++ toString j ++ "]")

/-- The position string of a path, as `position` joins it: `ops[i]` for the outermost operation, and
behind a dot the word for each place further in. -/
inductive Path.Position : Path → String → Prop
  | top (i : Nat) : Position [⟨.top, i⟩] ("ops[" ++ toString i ++ "]")
  | inside {path : Path} {position : String} {place : Place} {word : String} :
      Position path position → Place.Word place word →
        Position (path ++ [place]) (position ++ "." ++ word)

/-- The message for a fault of the operation at a position. -/
inductive EmitFault.Message (position : String) : EmitFault → String → Prop
  | unknownOperation (name : String) :
      Message position (.unknownOperation name) ("Unknown operation '" ++ name ++ "' at " ++ position)
  | unresolvedQubit (q : Qubit) :
      Message position (.unresolvedQubit q)
        ("Qubit " ++ (q.register ++ "[" ++ toString q.index.toNat ++ "]") ++ " at " ++ position ++
          " was never indexed")
  | unresolvedClbit (b : Clbit) :
      Message position (.unresolvedClbit b)
        ("Classical bit " ++ (b.register ++ "[" ++ toString b.index.toNat ++ "]") ++ " at " ++ position ++
          " was never indexed")
  | unresolvedRegister (name : String) :
      Message position (.unresolvedRegister name)
        ("Condition at " ++ position ++ " reads unknown register '" ++ name ++ "'")
  | zeroStep : Message position .zeroStep ("Invalid loop at " ++ position ++ ": range step is zero")
  | countTooLarge (count : UInt64) :
      Message position (.countTooLarge count)
        ("Invalid loop at " ++ position ++ ": iteration count " ++ toString count.toNat ++
          " does not fit a loop bound")

theorem Place.word_text {place : Place} (h : place.branch ≠ .top) : place.Word place.text := by
  obtain ⟨branch, index⟩ := place
  cases branch with
  | top => exact absurd rfl h
  | thenBody => exact .thenBody index
  | elseBody => exact .elseBody index
  | loopBody => exact .loopBody index

/-- One more place adds its text behind a dot. -/
theorem pathText_append_singleton {path : Path} (h : path ≠ []) (place : Place) :
    pathText (path ++ [place]) = pathText path ++ "." ++ place.text := by
  have hwords : ∀ (first : String) (words : List String),
      ".".intercalate (first :: words) = words.foldl (fun text word => text ++ "." ++ word) first := by
    intro first words
    induction words generalizing first with
    | nil => rfl
    | cons word rest ih => exact ih (first ++ "." ++ word)
  obtain ⟨outermost, inner, rfl⟩ := List.exists_cons_of_ne_nil h
  simp only [pathText, List.cons_append, List.map_cons, List.map_append, List.map_nil, hwords,
    List.foldl_append, List.foldl_cons, List.foldl_nil]

theorem Path.position_pathText (index : Nat) (inner : Path) (h : ∀ place ∈ inner, place.branch ≠ .top) :
    Position (⟨.top, index⟩ :: inner) (pathText (⟨.top, index⟩ :: inner)) := by
  -- The last place is the one that a step adds, so the induction is from the end of the path.
  induction inner using List.reverseRecOn with
  | nil => exact .top index
  | append_singleton inner place ih =>
    obtain ⟨hinner, hplace⟩ := List.forall_mem_append.1 h
    rw [← List.cons_append, pathText_append_singleton (List.cons_ne_nil _ _)]
    exact .inside (ih hinner) (Place.word_text (hplace place List.mem_cons_self))

theorem EmitError.message_pathText (e : EmitError) :
    EmitFault.Message (pathText e.path) e.fault e.message := by
  obtain ⟨fault, path⟩ := e
  cases fault with
  | unknownOperation name => exact .unknownOperation name
  | unresolvedQubit q => exact .unresolvedQubit q
  | unresolvedClbit b => exact .unresolvedClbit b
  | unresolvedRegister name => exact .unresolvedRegister name
  | zeroStep => exact .zeroStep
  | countTooLarge count => exact .countTooLarge count

/-- **An emission fails at the first operation with a fault.** It fails exactly if some operation at
some depth has a fault. The error is then the fault of the operation at its path, and no operation
before that one in document order has a fault. The message names the fault and the position, which
spells every place of the path by the list it is in. -/
theorem emission_error_is_first_fault (c : Circuit) (settings : Settings) :
    ((∃ e, c.emit settings = .error e) ↔
      ∃ path op, c.at? path = some op ∧ c.fault? (c.numbering settings.discovery) op ≠ none) ∧
    (∀ e, c.emit settings = .error e ↔
      (∃ op, c.at? e.path = some op ∧
        c.fault? (c.numbering settings.discovery) op = some e.fault) ∧
      ∀ path op, Path.Precedes path e.path → c.at? path = some op →
        c.fault? (c.numbering settings.discovery) op = none) ∧
    ∀ e, c.emit settings = .error e →
      Path.Position e.path (pathText e.path) ∧
        EmitFault.Message (pathText e.path) e.fault e.message := by
  refine ⟨?_, fun e => ⟨fun he => ?_, ?_⟩, fun e he => ?_⟩
  · rw [Circuit.exists_error_iff]
    constructor
    · rintro ⟨o, ho, hfault⟩
      exact ⟨o.path, o.operation, Circuit.at?_eq_some_iff.2 ⟨o, ho, rfl, rfl⟩, hfault⟩
    · rintro ⟨path, op, hat, hfault⟩
      obtain ⟨o, ho, -, rfl⟩ := Circuit.at?_eq_some_iff.1 hat
      exact ⟨o, ho, hfault⟩
  · obtain ⟨before, o, after, hsplit, hbefore, hfault, hpath⟩ := Circuit.emit_eq_error_iff.1 he
    have ho : o ∈ c.occurrences := by simp [hsplit]
    refine ⟨⟨o.operation, Circuit.at?_eq_some_iff.2 ⟨o, ho, hpath, rfl⟩, hfault⟩, ?_⟩
    intro path op hprecedes hat
    obtain ⟨x, hx, rfl, rfl⟩ := Circuit.at?_eq_some_iff.1 hat
    rw [← hpath] at hprecedes
    exact hbefore x ((Circuit.mem_before_iff hsplit hx).2 hprecedes)
  · rintro ⟨⟨op, hat, hfault⟩, hfirst⟩
    obtain ⟨o, ho, hpath, rfl⟩ := Circuit.at?_eq_some_iff.1 hat
    obtain ⟨before, after, hsplit⟩ := List.append_of_mem ho
    refine Circuit.emit_eq_error_iff.2 ⟨before, o, after, hsplit, ?_, hfault, hpath⟩
    intro x hx
    have hmem : x ∈ c.occurrences := by simp [hsplit, hx]
    have hprecedes := (Circuit.mem_before_iff hsplit hmem).1 hx
    rw [hpath] at hprecedes
    exact hfirst x.path x.operation hprecedes (Circuit.at?_eq_some_iff.2 ⟨x, hmem, rfl, rfl⟩)
  · obtain ⟨before, o, after, hsplit, -, -, hpath⟩ := Circuit.emit_eq_error_iff.1 he
    have ho : o ∈ c.occurrences := by simp [hsplit]
    obtain ⟨index, inner, htop, hinner⟩ :=
      Circuit.exists_top_of_at? (Circuit.at?_eq_some_iff.2 ⟨o, ho, hpath, rfl⟩)
    refine ⟨?_, e.message_pathText⟩
    rw [htop]
    exact Path.position_pathText index inner hinner

/-- A measurement of an undeclared qubit in an alternative, and further faults inside a loop behind it
and at the end. -/
def severalFaults : Circuit where
  name := "faults"
  qregs := [⟨"q", 1⟩]
  cregs := [⟨"c", 1⟩]
  operations :=
    [.gate (.fixed .h) [⟨"q", 0⟩],
     .ifElse ⟨.register "c", 1⟩ [.gate (.fixed .x) [⟨"q", 0⟩]]
       (some [.measure [⟨"q", 0⟩, ⟨"q", 5⟩] [⟨"c", 0⟩, ⟨"c", 7⟩],
         .forLoop (.range 0 4 0) none [.directive .reset [⟨"q", 0⟩]]]),
     .whileLoop ⟨.register "d", 0⟩ []]

theorem emission_error_is_first_fault_severalFaults :
    severalFaults.emit {} = .error ⟨.unresolvedQubit ⟨"q", 5⟩, [⟨.top, 1⟩, ⟨.elseBody, 0⟩]⟩ ∧
    (∀ path op, Path.Precedes path [⟨.top, 1⟩, ⟨.elseBody, 0⟩] → severalFaults.at? path = some op →
      severalFaults.fault? (severalFaults.numbering .declared) op = none) ∧
    severalFaults.fault? (severalFaults.numbering .declared) (.whileLoop ⟨.register "d", 0⟩ []) ≠ none ∧
    EmitFault.Message "ops[1].else[0]" (.unresolvedQubit ⟨"q", 5⟩)
      "Qubit q[5] at ops[1].else[0] was never indexed" := by
  have h : severalFaults.emit {} =
      .error ⟨.unresolvedQubit ⟨"q", 5⟩, [⟨.top, 1⟩, ⟨.elseBody, 0⟩]⟩ := by decide +kernel
  have hfirst := (((emission_error_is_first_fault severalFaults {}).2.1 _).1 h).2
  have htext := ((emission_error_is_first_fault severalFaults {}).2.2 _ h).2
  exact ⟨h, hfirst, by decide +kernel, htext⟩

end CircuitCalls
