import CircuitCalls.Proofs.Except
import CircuitCalls.Proofs.Numbering
import CircuitCalls.Proofs.Operation

/-!
# What emission writes

`Surroundings.Emits` describes the lines of a list of operations by one rule for each kind of
operation, without paths and without the order in which errors are looked for. All results on
programs that were emitted go by induction over it (`bodyLines_emits`).
-/

namespace CircuitCalls

/-! ## Numbers of operands -/

namespace Numbering

variable {kind : BitKind} {fault : Bit kind → EmitFault} {n : Numbering kind}

theorem resolve_eq_ok_iff {b : Bit kind} {i : Nat} :
    n.resolve fault b = .ok i ↔ b ∈ n.bits ∧ i = n.place b := by
  unfold resolve
  by_cases hb : b ∈ n.bits
  · simp [get?_eq_place hb, hb, eq_comm]
  · simp [get?_eq_none_iff.2 hb, hb]

theorem resolve_eq_error_iff {b : Bit kind} {e : EmitFault} :
    n.resolve fault b = .error e ↔ b ∉ n.bits ∧ e = fault b := by
  unfold resolve
  by_cases hb : b ∈ n.bits
  · simp [get?_eq_place hb, hb]
  · simp [get?_eq_none_iff.2 hb, hb, eq_comm]

/-- Bits are resolved if they all have numbers, and to those. -/
theorem mapM_resolve_eq_ok_iff {bits : List (Bit kind)} {numbers : List Nat} :
    bits.mapM (n.resolve fault) = .ok numbers ↔
      (∀ b ∈ bits, b ∈ n.bits) ∧ numbers = bits.map n.place := by
  rw [mapM_eq_ok_iff]
  simp only [resolve_eq_ok_iff]
  induction bits generalizing numbers with
  | nil => simp
  | cons b rest ih =>
    rw [List.forall₂_cons_left_iff]
    constructor
    · rintro ⟨i, is, ⟨hb, rfl⟩, his, rfl⟩
      obtain ⟨hrest, rfl⟩ := ih.1 his
      exact ⟨by simpa using ⟨hb, hrest⟩, rfl⟩
    · rintro ⟨hall, rfl⟩
      have hrest := ih.2 ⟨fun a ha => hall a (List.mem_cons_of_mem b ha), rfl⟩
      exact ⟨_, _, ⟨hall b List.mem_cons_self, rfl⟩, hrest, rfl⟩

/-- Bits cannot be resolved exactly if one of them has no number, and the first such bit is named. -/
theorem mapM_resolve_eq_error_iff {bits : List (Bit kind)} {e : EmitFault} :
    bits.mapM (n.resolve fault) = .error e ↔
      ∃ before b after, bits = before ++ b :: after ∧ (∀ a ∈ before, a ∈ n.bits) ∧
        b ∉ n.bits ∧ e = fault b := by
  have found : ∀ a, (∃ i, n.resolve fault a = .ok i) ↔ a ∈ n.bits := by
    intro a
    simp [resolve_eq_ok_iff]
  simp only [mapM_eq_error_iff, found, resolve_eq_error_iff]

end Numbering

namespace Surroundings

/-- The lines of operations that can all be emitted, inside the loops of a scope and at a depth. -/
inductive Emits (s : Surroundings) : Scope → Nat → List Operation → List Line → Prop where
  | nil {scope : Scope} {depth : Nat} : Emits s scope depth [] []
  | gate {scope : Scope} {depth : Nat} {g : Gate} {qubits : List Qubit} {operands : List Nat}
      {rest : List Operation} {ls : List Line} :
      s.numbering.qubits.resolveQubits qubits = .ok operands → Emits s scope depth rest ls →
      Emits s scope depth (.gate g qubits :: rest)
        (⟨depth, .gate (g.roles operands)
          (g.parameters.map fun p => (p.rename scope.rename).argument)⟩ :: ls)
  | measure {scope : Scope} {depth : Nat} {qubits : List Qubit} {clbits : List Clbit}
      {qs cs : List Nat} {rest : List Operation} {ls : List Line} :
      s.numbering.qubits.resolveQubits qubits = .ok qs →
      s.numbering.clbits.resolveClbits clbits = .ok cs → Emits s scope depth rest ls →
      Emits s scope depth (.measure qubits clbits :: rest) (⟨depth, .measure qs cs⟩ :: ls)
  /-- An alternative that is missing or empty leaves no line. -/
  | ifThen {scope : Scope} {depth : Nat} {condition : Condition} {thenBody : List Operation}
      {elseBody : Option (List Operation)} {guard : Guard} {rest : List Operation}
      {thenLines ls : List Line} :
      s.guard condition = .ok guard → elseBody.getD [] = [] →
      Emits s scope (depth + 1) thenBody thenLines → Emits s scope depth rest ls →
      Emits s scope depth (.ifElse condition thenBody elseBody :: rest)
        (⟨depth, .beginIf guard⟩ :: (thenLines ++ ⟨depth, .endBlock⟩ :: ls))
  | ifElse {scope : Scope} {depth : Nat} {condition : Condition} {thenBody elseBody : List Operation}
      {guard : Guard} {rest : List Operation} {thenLines elseLines ls : List Line} :
      s.guard condition = .ok guard → elseBody ≠ [] →
      Emits s scope (depth + 1) thenBody thenLines → Emits s scope (depth + 1) elseBody elseLines →
      Emits s scope depth rest ls →
      Emits s scope depth (.ifElse condition thenBody (some elseBody) :: rest)
        (⟨depth, .beginIf guard⟩ ::
          (thenLines ++ ⟨depth, .otherwise⟩ :: (elseLines ++ ⟨depth, .endBlock⟩ :: ls)))
  | whileLoop {scope : Scope} {depth : Nat} {condition : Condition} {body : List Operation}
      {guard : Guard} {rest : List Operation} {bodyLines ls : List Line} :
      s.guard condition = .ok guard → Emits s scope (depth + 1) body bodyLines →
      Emits s scope depth rest ls →
      Emits s scope depth (.whileLoop condition body :: rest)
        (⟨depth, .beginWhile guard⟩ :: (bodyLines ++ ⟨depth, .endBlock⟩ :: ls))
  | forLoop {scope : Scope} {depth : Nat} {iteration : Iteration} {loopVar : Option String}
      {body : List Operation} {header : LoopHeader} {rest : List Operation}
      {bodyLines ls : List Line} :
      Surroundings.header (scope.freshName (s.sourceVar loopVar)) iteration = .ok header →
      Emits s (scope.enter (s.sourceVar loopVar)) (depth + 1) body bodyLines →
      Emits s scope depth rest ls →
      Emits s scope depth (.forLoop iteration loopVar body :: rest)
        (⟨depth, .beginFor header⟩ :: (bodyLines ++ ⟨depth, .endBlock⟩ :: ls))

/-! ## First calls -/

/-- A condition reads bits unless it names a register that is not declared. -/
theorem readBits_eq_ok_iff {c : Circuit} {condition : Condition} {bits : List Clbit} :
    c.readBits condition.target = .ok bits ↔
      (∀ name, condition.target = .register name → (c.creg? name).isSome) ∧
        bits = c.conditionBits condition := by
  unfold Circuit.readBits Circuit.conditionBits
  cases condition.target with
  | bit b =>
    refine ⟨fun h => ⟨by simp, (Except.ok.inj h).symm⟩, fun h => ?_⟩
    rw [h.2]
  | register name =>
    dsimp only
    cases hr : c.creg? name with
    | none => simp [hr]
    | some register =>
      refine ⟨fun h => ⟨by simp [hr], (Except.ok.inj h).symm⟩, fun h => ?_⟩
      rw [h.2]
      rfl

theorem guard_eq_ok_iff {s : Surroundings} {condition : Condition} {guard : Guard} :
    s.guard condition = .ok guard ↔
      (∀ name, condition.target = .register name → (s.circuit.creg? name).isSome) ∧
      (∀ b ∈ s.circuit.conditionBits condition, b ∈ s.numbering.clbits.bits) ∧
      guard = ⟨(s.circuit.conditionBits condition).map s.numbering.clbits.place, condition.value⟩ := by
  simp only [Surroundings.guard, bind_eq_ok_iff, readBits_eq_ok_iff, Numbering.resolveClbits,
    Numbering.mapM_resolve_eq_ok_iff, pure_eq_ok, Except.ok.injEq]
  constructor
  · rintro ⟨bits, ⟨hreg, rfl⟩, numbers, ⟨hall, rfl⟩, rfl⟩
    exact ⟨hreg, hall, rfl⟩
  · rintro ⟨hreg, hall, rfl⟩
    exact ⟨_, ⟨hreg, rfl⟩, _, ⟨hall, rfl⟩, rfl⟩

theorem firstLine_eq_ok_iff {s : Surroundings} {scope : Scope} {path : Path} {depth : Nat}
    {op : Operation} {line : Line} :
    s.firstLine scope path depth op = .ok line ↔
      ∃ call, s.firstCall scope op = .ok call ∧ line = ⟨depth, call⟩ := by
  unfold firstLine
  cases s.firstCall scope op with
  | ok call => simp [eq_comm]
  | error fault => simp

theorem firstCall_gate {s : Surroundings} {scope : Scope} {g : Gate} {qubits : List Qubit}
    {call : Call} :
    s.firstCall scope (.gate g qubits) = .ok call ↔
      ∃ operands, s.numbering.qubits.resolveQubits qubits = .ok operands ∧
        call = .gate (g.roles operands)
          (g.parameters.map fun p => (p.rename scope.rename).argument) := by
  rw [firstCall, bind_eq_ok_iff]
  simp [eq_comm]

theorem firstCall_measure {s : Surroundings} {scope : Scope} {qubits : List Qubit}
    {clbits : List Clbit} {call : Call} :
    s.firstCall scope (.measure qubits clbits) = .ok call ↔
      ∃ qs cs, s.numbering.qubits.resolveQubits qubits = .ok qs ∧
        s.numbering.clbits.resolveClbits clbits = .ok cs ∧ call = .measure qs cs := by
  simp only [firstCall, bind_eq_ok_iff, pure_eq_ok, Except.ok.injEq]
  constructor
  · rintro ⟨qs, hqs, cs, hcs, rfl⟩
    exact ⟨qs, cs, hqs, hcs, rfl⟩
  · rintro ⟨qs, cs, hqs, hcs, rfl⟩
    exact ⟨qs, hqs, cs, hcs, rfl⟩

theorem firstCall_ifElse {s : Surroundings} {scope : Scope} {condition : Condition}
    {thenBody : List Operation} {elseBody : Option (List Operation)} {call : Call} :
    s.firstCall scope (.ifElse condition thenBody elseBody) = .ok call ↔
      ∃ guard, s.guard condition = .ok guard ∧ call = .beginIf guard := by
  rw [firstCall, bind_eq_ok_iff]
  simp [eq_comm]

theorem firstCall_whileLoop {s : Surroundings} {scope : Scope} {condition : Condition}
    {body : List Operation} {call : Call} :
    s.firstCall scope (.whileLoop condition body) = .ok call ↔
      ∃ guard, s.guard condition = .ok guard ∧ call = .beginWhile guard := by
  rw [firstCall, bind_eq_ok_iff]
  simp [eq_comm]

theorem firstCall_forLoop {s : Surroundings} {scope : Scope} {iteration : Iteration}
    {loopVar : Option String} {body : List Operation} {call : Call} :
    s.firstCall scope (.forLoop iteration loopVar body) = .ok call ↔
      ∃ header, Surroundings.header (scope.freshName (s.sourceVar loopVar)) iteration = .ok header ∧
        call = .beginFor header := by
  rw [firstCall, bind_eq_ok_iff]
  simp [eq_comm]

/-! ## The lines of an emission follow the rules -/

/-- Lines that are emitted are those of `Emits`, by induction over operations and lists of them; `rest` is
what comes behind. -/
theorem lines_emits_bodyLines_emits (s : Surroundings) :
    (∀ op scope path depth ls, s.lines scope path depth op = .ok ls →
      ∀ rest more, s.Emits scope depth rest more → s.Emits scope depth (op :: rest) (ls ++ more)) ∧
    ∀ ops scope path branch depth index ls,
      s.bodyLines scope path branch depth index ops = .ok ls → s.Emits scope depth ops ls := by
  apply Operation.induction
  case gate =>
    intro g qubits scope path depth ls h rest more hrest
    rw [lines] at h
    obtain ⟨line, hline, h⟩ := bind_eq_ok_iff.1 h
    cases h
    obtain ⟨call, hcall, rfl⟩ := firstLine_eq_ok_iff.1 hline
    obtain ⟨operands, hoperands, rfl⟩ := firstCall_gate.1 hcall
    exact .gate hoperands hrest
  case measure =>
    intro qubits clbits scope path depth ls h rest more hrest
    rw [lines] at h
    obtain ⟨line, hline, h⟩ := bind_eq_ok_iff.1 h
    cases h
    obtain ⟨call, hcall, rfl⟩ := firstLine_eq_ok_iff.1 hline
    obtain ⟨qs, cs, hqs, hcs, rfl⟩ := firstCall_measure.1 hcall
    exact .measure hqs hcs hrest
  case ifThen =>
    intro condition thenBody ih scope path depth ls h rest more hrest
    rw [lines] at h
    obtain ⟨first, hfirst, h⟩ := bind_eq_ok_iff.1 h
    obtain ⟨thenLines, hthen, h⟩ := bind_eq_ok_iff.1 h
    cases h
    obtain ⟨call, hcall, rfl⟩ := firstLine_eq_ok_iff.1 hfirst
    obtain ⟨guard, hguard, rfl⟩ := firstCall_ifElse.1 hcall
    simpa using Emits.ifThen hguard rfl (ih _ _ _ _ _ _ hthen) hrest
  case ifElse =>
    intro condition thenBody elseBody ihThen ihElse scope path depth ls h rest more hrest
    rw [lines] at h
    obtain ⟨first, hfirst, h⟩ := bind_eq_ok_iff.1 h
    obtain ⟨thenLines, hthen, h⟩ := bind_eq_ok_iff.1 h
    obtain ⟨call, hcall, rfl⟩ := firstLine_eq_ok_iff.1 hfirst
    obtain ⟨guard, hguard, rfl⟩ := firstCall_ifElse.1 hcall
    cases elseBody with
    | nil =>
      cases h
      simpa using Emits.ifThen hguard rfl (ihThen _ _ _ _ _ _ hthen) hrest
    | cons op ops =>
      obtain ⟨elseLines, helse, h⟩ := bind_eq_ok_iff.1 h
      cases h
      simpa using Emits.ifElse hguard (by simp) (ihThen _ _ _ _ _ _ hthen)
        (ihElse _ _ _ _ _ _ helse) hrest
  case whileLoop =>
    intro condition body ih scope path depth ls h rest more hrest
    rw [lines] at h
    obtain ⟨first, hfirst, h⟩ := bind_eq_ok_iff.1 h
    obtain ⟨inner, hinner, h⟩ := bind_eq_ok_iff.1 h
    cases h
    obtain ⟨call, hcall, rfl⟩ := firstLine_eq_ok_iff.1 hfirst
    obtain ⟨guard, hguard, rfl⟩ := firstCall_whileLoop.1 hcall
    simpa using Emits.whileLoop hguard (ih _ _ _ _ _ _ hinner) hrest
  case forLoop =>
    intro iteration loopVar body ih scope path depth ls h rest more hrest
    rw [lines] at h
    obtain ⟨first, hfirst, h⟩ := bind_eq_ok_iff.1 h
    obtain ⟨inner, hinner, h⟩ := bind_eq_ok_iff.1 h
    cases h
    obtain ⟨call, hcall, rfl⟩ := firstLine_eq_ok_iff.1 hfirst
    obtain ⟨header, hheader, rfl⟩ := firstCall_forLoop.1 hcall
    simpa using Emits.forLoop hheader (ih _ _ _ _ _ _ hinner) hrest
  case directive =>
    intro d qubits scope path depth ls h
    rw [lines] at h
    obtain ⟨line, hline, -⟩ := bind_eq_ok_iff.1 h
    obtain ⟨call, hcall, -⟩ := firstLine_eq_ok_iff.1 hline
    cases hcall
  case nil =>
    intro scope path branch depth index ls h
    rw [bodyLines] at h
    cases h
    exact .nil
  case cons =>
    intro op rest ihOp ihRest scope path branch depth index ls h
    rw [bodyLines] at h
    obtain ⟨head, hhead, h⟩ := bind_eq_ok_iff.1 h
    obtain ⟨tail, htail, h⟩ := bind_eq_ok_iff.1 h
    cases h
    exact ihOp _ _ _ _ hhead _ _ (ihRest _ _ _ _ _ _ htail)

theorem bodyLines_emits {s : Surroundings} {scope : Scope} {path : Path} {branch : Branch}
    {depth index : Nat} {ops : List Operation} {ls : List Line}
    (h : s.bodyLines scope path branch depth index ops = .ok ls) : s.Emits scope depth ops ls :=
  (lines_emits_bodyLines_emits s).2 ops scope path branch depth index ls h

/-! ## The first fault stops the emission -/

/-- The scope inside operations, of which only loops over a variable matter. -/
def scopeIn (s : Surroundings) : List Operation → Scope
  | [] => []
  | .forLoop _ loopVar _ :: around => (s.scopeIn around).enter (s.sourceVar loopVar)
  | _ :: around => s.scopeIn around

@[simp] theorem scopeIn_ifElse (s : Surroundings) (condition : Condition)
    (thenBody : List Operation) (elseBody : Option (List Operation)) (around : List Operation) :
    s.scopeIn (.ifElse condition thenBody elseBody :: around) = s.scopeIn around := rfl

@[simp] theorem scopeIn_whileLoop (s : Surroundings) (condition : Condition)
    (body around : List Operation) :
    s.scopeIn (.whileLoop condition body :: around) = s.scopeIn around := rfl

@[simp] theorem scopeIn_forLoop (s : Surroundings) (iteration : Iteration) (loopVar : Option String)
    (body around : List Operation) :
    s.scopeIn (.forLoop iteration loopVar body :: around) =
      (s.scopeIn around).enter (s.sourceVar loopVar) := rfl

/-- Whether the first call of an operation can be made where the operation stands. -/
def attempt (s : Surroundings) (o : Occurrence) : Except EmitError Unit :=
  match s.firstCall (s.scopeIn o.around) o.operation with
  | .ok _ => .ok ()
  | .error fault => .error ⟨fault, o.path⟩

theorem attempt_eq_error_iff {s : Surroundings} {o : Occurrence} {e : EmitError} :
    s.attempt o = .error e ↔
      s.firstCall (s.scopeIn o.around) o.operation = .error e.fault ∧ o.path = e.path := by
  unfold attempt
  cases s.firstCall (s.scopeIn o.around) o.operation with
  | ok call => simp
  | error fault => cases e; simp

theorem firstLine_attempt (s : Surroundings) (path : Path) (around : List Operation) (depth : Nat)
    (op : Operation) :
    (fun _ => ()) <$> s.firstLine (s.scopeIn around) path depth op = s.attempt ⟨path, around, op⟩ := by
  unfold firstLine attempt
  cases s.firstCall (s.scopeIn around) op <;> rfl

/-- The lines of operations can be written exactly if each operation at every depth can make its
first call, and otherwise the first that cannot gives the error. -/
theorem lines_attempt_bodyLines_attempt (s : Surroundings) :
    (∀ op path around depth,
      (fun _ => ()) <$> s.lines (s.scopeIn around) path depth op =
        forM (Operation.occurrences path around op) s.attempt) ∧
    ∀ ops path branch index around depth,
      (fun _ => ()) <$> s.bodyLines (s.scopeIn around) path branch depth index ops =
        forM (Operation.occurrencesAll path branch index around ops) s.attempt := by
  apply Operation.induction
  case gate =>
    intro g qubits path around depth
    simp [lines, Operation.occurrences, ← firstLine_attempt s path around depth, map_unit_eq_bind]
  case measure =>
    intro qubits clbits path around depth
    simp [lines, Operation.occurrences, ← firstLine_attempt s path around depth, map_unit_eq_bind]
  case directive =>
    intro d qubits path around depth
    simp [lines, Operation.occurrences, ← firstLine_attempt s path around depth, map_unit_eq_bind]
  case ifThen =>
    intro condition thenBody ih path around depth
    have hthen := ih path .thenBody 0 (.ifElse condition thenBody none :: around) (depth + 1)
    rw [scopeIn_ifElse] at hthen
    simp [lines, Operation.occurrences, ← firstLine_attempt s path around depth, ← hthen,
      map_unit_eq_bind]
  case ifElse =>
    intro condition thenBody elseBody ihThen ihElse path around depth
    have hthen := ihThen path .thenBody 0 (.ifElse condition thenBody elseBody :: around) (depth + 1)
    have helse := ihElse path .elseBody 0 (.ifElse condition thenBody elseBody :: around) (depth + 1)
    rw [scopeIn_ifElse] at hthen helse
    -- An alternative without operations has no lines and no occurrences.
    cases elseBody with
    | nil =>
      simp [lines, Operation.occurrences, Operation.occurrencesAll,
        ← firstLine_attempt s path around depth, ← hthen, map_unit_eq_bind]
    | cons op rest =>
      simp [lines, Operation.occurrences, ← firstLine_attempt s path around depth, ← hthen, ← helse,
        map_unit_eq_bind]
  case whileLoop =>
    intro condition body ih path around depth
    have hbody := ih path .loopBody 0 (.whileLoop condition body :: around) (depth + 1)
    rw [scopeIn_whileLoop] at hbody
    simp [lines, Operation.occurrences, ← firstLine_attempt s path around depth, ← hbody,
      map_unit_eq_bind]
  case forLoop =>
    intro iteration loopVar body ih path around depth
    have hbody := ih path .loopBody 0 (.forLoop iteration loopVar body :: around) (depth + 1)
    rw [scopeIn_forLoop] at hbody
    simp [lines, Operation.occurrences, ← firstLine_attempt s path around depth, ← hbody,
      map_unit_eq_bind]
  case nil =>
    intro path branch index around depth
    rfl
  case cons =>
    intro op rest ihOp ihRest path branch index around depth
    simp [bodyLines, Operation.occurrencesAll, ← ihOp _ _ depth, ← ihRest _ _ _ _ depth,
      map_unit_eq_bind]

end Surroundings

namespace Circuit

def surroundings (c : Circuit) (settings : Settings) : Surroundings :=
  ⟨c, settings, c.numbering settings.discovery⟩

/-- A program starts with the two size calls, and what follows are the lines of the operations. -/
theorem emit_eq_ok {c : Circuit} {settings : Settings} {p : Program} (h : c.emit settings = .ok p) :
    ∃ ls, (c.surroundings settings).Emits [] 0 c.operations ls ∧
      p.lines = ⟨0, .setQubitCount (c.numbering settings.discovery).qubits.size⟩ ::
        ⟨0, .setClbitCount (c.numbering settings.discovery).clbits.size⟩ :: ls := by
  obtain ⟨ls, hls, h⟩ := bind_eq_ok_iff.1 h
  cases h
  exact ⟨ls, Surroundings.bodyLines_emits hls, rfl⟩

theorem emit_attempt (c : Circuit) (settings : Settings) :
    (fun _ => ()) <$> c.emit settings = forM c.occurrences (c.surroundings settings).attempt := by
  have h := (c.surroundings settings).lines_attempt_bodyLines_attempt.2 c.operations [] .top 0 [] 0
  rw [occurrences, ← h, map_unit_eq_bind, map_unit_eq_bind, emit]
  simp only [bind_assoc, pure_eq_ok, ok_bind]
  rfl

theorem emit_eq_error {c : Circuit} {settings : Settings} {e : EmitError}
    (h : c.emit settings = .error e) :
    ∃ before o after, c.occurrences = before ++ o :: after ∧
      (∀ x ∈ before, (c.surroundings settings).attempt x = .ok ()) ∧
      (c.surroundings settings).attempt o = .error e := by
  have hall : forM c.occurrences (c.surroundings settings).attempt = .error e := by
    rw [← emit_attempt, h]
    rfl
  exact forM_eq_error_iff.1 hall

end Circuit

end CircuitCalls
