import CircuitCalls.Proofs.Emission
import CircuitCalls.Proofs.LoopValues
import CircuitCalls.Proofs.Numbering

/-!
# A program does what its circuit does

The program that is emitted for a circuit and the circuit itself are seen to do the same, once the bits
of the circuit are replaced by their numbers (`emit_preserves_observations`).

The proof follows the rules of `Surroundings.Emits`: running the lines of some operations with more
code behind them comes to the same as running the operations and then that code (`run_emits`). Loops
need two facts more. A cursor of a program yields the values that the circuit gives its loop variable,
and no operation brings back events that were used up, so that the bound on the rounds of a `while`
loop is never what stops it.
-/

namespace CircuitCalls

/-! ## From bits to numbers -/

def Roles.map {α β : Type} (f : α → β) (r : Roles α) : Roles β :=
  ⟨r.root, r.targets.map f, r.positive.map f, r.negative.map f⟩

def Event.number (n : CircuitNumbering) : Event Qubit Clbit → Event Nat Nat
  | gate roles => gate (roles.map n.qubits.place)
  | measure qubits clbits outcomes =>
    measure (qubits.map n.qubits.place) (clbits.map n.clbits.place) outcomes
  | read clbits value => read (clbits.map n.clbits.place) value
  | iterate value => iterate value

def Trace.number (n : CircuitNumbering) (t : Trace Qubit Clbit) : Trace Nat Nat :=
  t.map (Event.number n)

def Observation.number (n : CircuitNumbering) (o : Observation Qubit Clbit) : Observation Nat Nat :=
  ⟨Trace.number n o.trace, o.finished⟩

def Oracle.named (n : CircuitNumbering) (oracle : Oracle Nat Nat) : Oracle Qubit Clbit :=
  fun trace qubits i => oracle (Trace.number n trace) (qubits.map n.qubits.place) i

/-- The classical memory by numbers; a number that no bit has stands for a bit that is 0. -/
def numberMemory (n : CircuitNumbering) (memory : Clbit → Bool) : Nat → Bool :=
  fun i => (n.clbits.bits[i]?.map memory).getD false

def RunState.number (n : CircuitNumbering) (s : RunState Qubit Clbit) : RunState Nat Nat :=
  ⟨numberMemory n s.memory, Trace.number n s.trace, s.left⟩

def Stoppable.number {α : Type} (n : CircuitNumbering) : Stoppable Qubit Clbit α → Stoppable Nat Nat α :=
  Except.mapError (Trace.number n)

variable {n : CircuitNumbering}

@[simp] theorem Stoppable.number_ok {α : Type} (a : α) :
    Stoppable.number n (.ok a : Stoppable Qubit Clbit α) = .ok a := rfl

@[simp] theorem Stoppable.number_error {α : Type} (t : Trace Qubit Clbit) :
    Stoppable.number n (.error t : Stoppable Qubit Clbit α) = .error (Trace.number n t) := rfl

@[simp] theorem Stoppable.number_bind {α β : Type} (x : Stoppable Qubit Clbit α)
    (f : α → Stoppable Qubit Clbit β) :
    Stoppable.number n (x >>= f) = Stoppable.number n x >>= fun a => Stoppable.number n (f a) := by
  cases x <;> rfl

theorem Gate.roles_map {α β : Type} (g : Gate) (f : α → β) (operands : List α) :
    g.roles (operands.map f) = (g.roles operands).map f := by
  have hzip : (operands.map f).zip (g.plan operands.length).polarity =
      (operands.zip (g.plan operands.length).polarity).map (Prod.map f id) := by
    rw [List.zip_map_left]
  simp only [roles, Roles.map, List.length_map, hzip, List.filter_map, List.map_map, List.map_drop]
  rfl

namespace RunState

theorem record_number (s : RunState Qubit Clbit) (e : Event Qubit Clbit) :
    (s.number n).record (e.number n) = Stoppable.number n (s.record e) >>= fun t => .ok (t.number n) := by
  unfold record
  cases hl : s.left with
  | zero => simp [number, hl]
  | succ left => simp [number, hl, Trace.number]

theorem numberMemory_place (memory : Clbit → Bool) {b : Clbit} (h : b ∈ n.clbits.bits) :
    numberMemory n memory (n.clbits.place b) = memory b := by
  simp [numberMemory, Numbering.getElem?_place h]

theorem numberMemory_update (memory : Clbit → Bool) {b : Clbit}
    (value : Bool) (h : b ∈ n.clbits.bits) :
    numberMemory n (Function.update memory b value) =
      Function.update (numberMemory n memory) (n.clbits.place b) value := by
  funext i
  by_cases hi : i = n.clbits.place b
  · subst hi
    rw [Function.update_self, numberMemory_place _ h, Function.update_self]
  · rw [Function.update_of_ne hi]
    cases ha : n.clbits.bits[i]? with
    | none => simp [numberMemory, ha]
    | some a =>
      have hab : a ≠ b := fun e => hi (e ▸ Numbering.place_of_getElem? ha).symm
      simp [numberMemory, ha, Function.update_of_ne hab]

/-- Writing to bits with numbers is writing to their numbers. -/
theorem numberMemory_write (memory : Clbit → Bool) (clbits : List Clbit)
    (values : List Bool) (h : ∀ b ∈ clbits, b ∈ n.clbits.bits) :
    numberMemory n (write memory (clbits.zip values)) =
      write (numberMemory n memory) ((clbits.map n.clbits.place).zip values) := by
  induction clbits generalizing memory values with
  | nil => rfl
  | cons b rest ih =>
    cases values with
    | nil => rfl
    | cons value values =>
      simp only [List.map_cons, List.zip_cons_cons, write]
      rw [ih _ _ fun a ha => h a (List.mem_cons_of_mem b ha),
        numberMemory_update memory value (h b List.mem_cons_self)]

theorem read_number {s : RunState Qubit Clbit} {clbits : List Clbit} (value : UInt64)
    (h : ∀ b ∈ clbits, b ∈ n.clbits.bits) :
    (s.number n).read (clbits.map n.clbits.place) value =
      Stoppable.number n (s.read clbits value) >>= fun r => .ok (r.1, r.2.number n) := by
  have hfound : (clbits.map n.clbits.place).map (s.number n).memory = clbits.map s.memory := by
    rw [List.map_map]
    exact List.map_congr_left fun b hb => numberMemory_place _ (h b hb)
  have hrec := record_number (n := n) s (.read clbits (bitsValue (clbits.map s.memory)))
  simp only [Event.number] at hrec
  simp only [read, hfound, hrec, Stoppable.number_bind]
  cases s.record (.read clbits (bitsValue (clbits.map s.memory))) <;> rfl

/-- A measurement finds and writes the same, by bits or by their numbers. -/
theorem measure_number (oracle : Oracle Nat Nat)
    {s : RunState Qubit Clbit} (qubits : List Qubit) {clbits : List Clbit}
    (h : ∀ b ∈ clbits, b ∈ n.clbits.bits) :
    (s.number n).measure oracle (qubits.map n.qubits.place) (clbits.map n.clbits.place) =
      Stoppable.number n (s.measure (oracle.named n) qubits clbits) >>= fun t => .ok (t.number n) := by
  have hout : (List.range (qubits.map n.qubits.place).length).map
      (oracle (s.number n).trace (qubits.map n.qubits.place)) =
      (List.range qubits.length).map (oracle.named n s.trace qubits) := by
    rw [List.length_map]
    rfl
  have hrec := record_number (n := n) s
    (.measure qubits clbits ((List.range qubits.length).map (oracle.named n s.trace qubits)))
  simp only [Event.number] at hrec
  simp only [measure, hout, hrec, Stoppable.number_bind]
  cases s.record _ with
  | error t => rfl
  | ok t =>
    simp only [Stoppable.number_ok, ok_bind, pure_eq_ok, number,
      numberMemory_write _ clbits _ h]

/-! ## Events are counted -/

/-- A run uses up an event for each one that it adds, and is stopped only when none are left. -/
def Counted {Q C : Type} (s : RunState Q C) : Stoppable Q C (RunState Q C) → Prop
  | .ok t => t.left ≤ s.left ∧ t.trace.length + t.left = s.trace.length + s.left
  | .error trace => trace.length = s.trace.length + s.left

variable {Q C : Type}

/-- Runs one after the other are counted if each of them is. -/
theorem Counted.bind {s : RunState Q C} {x : Stoppable Q C (RunState Q C)}
    {f : RunState Q C → Stoppable Q C (RunState Q C)} (hx : s.Counted x)
    (hf : ∀ t : RunState Q C, x = .ok t → t.Counted (f t)) : s.Counted (x >>= f) := by
  cases x with
  | error trace => exact hx
  | ok t =>
    obtain ⟨hle, hsum⟩ := hx
    have ht := hf t rfl
    rw [ok_bind]
    cases hr : f t with
    | error trace =>
      rw [hr] at ht
      exact ht.trans hsum
    | ok u =>
      rw [hr] at ht
      exact ⟨Nat.le_trans ht.1 hle, ht.2.trans hsum⟩

theorem record_counted (s : RunState Q C) (e : Event Q C) : s.Counted (s.record e) := by
  unfold record
  cases hl : s.left with
  | zero => simp [Counted, hl]
  | succ left =>
    simp only [Counted, hl, List.length_append, List.length_singleton]
    omega

theorem measure_counted [DecidableEq C] (oracle : Oracle Q C) (s : RunState Q C) (qubits : List Q)
    (clbits : List C) : s.Counted (s.measure oracle qubits clbits) :=
  (record_counted s _).bind fun _ _ => ⟨Nat.le_refl _, rfl⟩

theorem read_bind (s : RunState Q C) (clbits : List C) (value : UInt64)
    (f : Bool × RunState Q C → Stoppable Q C (RunState Q C)) :
    s.read clbits value >>= f =
      s.record (.read clbits (bitsValue (clbits.map s.memory))) >>= fun t =>
        f (bitsValue (clbits.map s.memory) == value.toNat, t) := by
  simp only [read]
  cases s.record (.read clbits (bitsValue (clbits.map s.memory))) <;> rfl

/-- Every test is an event, so that more rounds than events left are never made. -/
theorem repeatWhile_counted {clbits : List C} {value : UInt64}
    {body : RunState Q C → Stoppable Q C (RunState Q C)} (hbody : ∀ s : RunState Q C, s.Counted (body s))
    (rounds : Nat) (s : RunState Q C) (h : s.left < rounds) :
    s.Counted (repeatWhile (·.read clbits value) body rounds s) := by
  induction rounds generalizing s with
  | zero => exact absurd h (Nat.not_lt_zero _)
  | succ rounds ih =>
    rw [repeatWhile, read_bind]
    refine (record_counted s _).bind fun t ht => ?_
    dsimp only
    have hlt := record_left ht
    split
    · refine (hbody t).bind fun u hu => ih u ?_
      have hle := hbody t
      rw [hu] at hle
      have := hle.1
      omega
    · exact ⟨Nat.le_refl _, rfl⟩

theorem forEach_counted {body : RunState Q C → Stoppable Q C (RunState Q C)}
    (hbody : ∀ s : RunState Q C, s.Counted (body s)) (items : List Int) (s : RunState Q C) :
    s.Counted (forEach body items s) := by
  induction items generalizing s with
  | nil => exact ⟨Nat.le_refl _, rfl⟩
  | cons v rest ih =>
    rw [forEach]
    exact (record_counted s _).bind fun t _ => (hbody t).bind fun u _ => ih u

end RunState

open RunState in
/-- Every operation uses up an event for each one that it adds, and is stopped only when none are left. -/
theorem execute_counted_executeAll_counted (c : Circuit) (oracle : Oracle Qubit Clbit) :
    (∀ op s, Counted s (Operation.execute c oracle op s)) ∧
    ∀ ops s, Counted s (Operation.executeAll c oracle ops s) := by
  apply Operation.induction
  case gate =>
    intro g qubits s
    exact record_counted s _
  case measure =>
    intro qubits clbits s
    exact measure_counted oracle s qubits clbits
  case ifThen =>
    intro condition thenBody ih s
    rw [Operation.execute, read_bind]
    refine (record_counted s _).bind fun t _ => ?_
    dsimp only
    split
    · exact ih t
    · exact ⟨Nat.le_refl _, rfl⟩
  case ifElse =>
    intro condition thenBody elseBody ihThen ihElse s
    rw [Operation.execute, read_bind]
    refine (record_counted s _).bind fun t _ => ?_
    dsimp only
    split
    · exact ihThen t
    · exact ihElse t
  case whileLoop =>
    intro condition body ih s
    rw [Operation.execute]
    exact repeatWhile_counted ih _ s (Nat.lt_succ_self _)
  case forLoop =>
    intro iteration loopVar body ih s
    rw [Operation.execute]
    exact forEach_counted ih _ s
  case directive =>
    intro d qubits s
    exact ⟨Nat.le_refl _, rfl⟩
  case nil =>
    intro s
    exact ⟨Nat.le_refl _, rfl⟩
  case cons =>
    intro op rest ihOp ihRest s
    rw [Operation.executeAll]
    exact (ihOp s).bind fun t _ => ihRest t

theorem executeAll_counted (c : Circuit) (oracle : Oracle Qubit Clbit) (ops : List Operation)
    (s : RunState Qubit Clbit) : s.Counted (Operation.executeAll c oracle ops s) :=
  (execute_counted_executeAll_counted c oracle).2 ops s

/-- A run that does not come to its end shows as many events as it may. -/
theorem length_trace_of_not_finished (c : Circuit) (oracle : Oracle Qubit Clbit) (bound : Nat)
    (h : (c.observe oracle bound).finished = false) :
    (c.observe oracle bound).trace.length = bound := by
  have hc := executeAll_counted c oracle c.operations (.start bound)
  unfold Circuit.observe at h ⊢
  cases hr : Operation.executeAll c oracle c.operations (.start bound) with
  | ok s => simp [hr, Observation.ofRun] at h
  | error trace =>
    rw [hr] at hc
    simpa [Observation.ofRun, RunState.Counted, RunState.start] using hc

/-! ## Code that is skipped -/

/-- Code whose blocks are all closed in it, so that skipping does not stop inside. -/
def Balanced (code : List Call) : Prop :=
  ∀ inner k, boundary inner (code ++ k) = boundary inner k

theorem boundary_open {call : Call} (h : call.opensBlock = true) (inner : Nat) (k : List Call) :
    boundary inner (call :: k) = boundary (inner + 1) k := by
  rw [boundary.eq_def]
  simp only [h, if_true]

theorem boundary_end_succ (inner : Nat) (k : List Call) :
    boundary (inner + 1) (.endBlock :: k) = boundary inner k := by
  simp [boundary, Call.opensBlock]

theorem boundary_otherwise_succ (inner : Nat) (k : List Call) :
    boundary (inner + 1) (.otherwise :: k) = boundary (inner + 1) k := by
  simp [boundary, Call.opensBlock]

theorem boundary_end (k : List Call) : boundary 0 (.endBlock :: k) = .endBlock :: k := by
  simp [boundary, Call.opensBlock]

theorem boundary_otherwise (k : List Call) : boundary 0 (.otherwise :: k) = .otherwise :: k := by
  simp [boundary, Call.opensBlock]

theorem Balanced.append {a b : List Call} (ha : Balanced a) (hb : Balanced b) : Balanced (a ++ b) := by
  intro inner k
  rw [List.append_assoc, ha, hb]

theorem Balanced.block {call : Call} {body : List Call} (h : call.opensBlock = true)
    (hbody : Balanced body) : Balanced (call :: (body ++ [.endBlock])) := by
  intro inner k
  rw [List.cons_append, boundary_open h, List.append_assoc, hbody]
  exact boundary_end_succ inner k

theorem Balanced.conditional {call : Call} {thenCode elseCode : List Call}
    (h : call.opensBlock = true) (ht : Balanced thenCode) (he : Balanced elseCode) :
    Balanced (call :: (thenCode ++ .otherwise :: (elseCode ++ [.endBlock]))) := by
  intro inner k
  rw [List.cons_append, boundary_open h, List.append_assoc, ht, List.cons_append,
    boundary_otherwise_succ, List.append_assoc, he]
  exact boundary_end_succ inner k

/-! ## Code that does what operations do -/

/-- Executing the code comes to the same as `f`, whatever code follows and whatever blocks are open. -/
def Simulates (n : CircuitNumbering) (oracle : Oracle Nat Nat) (code : List Call)
    (f : RunState Qubit Clbit → Stoppable Qubit Clbit (RunState Qubit Clbit)) : Prop :=
  ∀ (k : List Call) (blocks : List Block) (s : RunState Qubit Clbit),
    Machine.run oracle ⟨code ++ k, blocks⟩ (s.number n) =
      Stoppable.number n (f s) >>= fun t => Machine.run oracle ⟨k, blocks⟩ (t.number n)

namespace Simulates

variable {oracle : Oracle Nat Nat} {code : List Call}
  {f g : RunState Qubit Clbit → Stoppable Qubit Clbit (RunState Qubit Clbit)}

theorem nil : Simulates n oracle [] fun s => .ok s := by
  intro k blocks s
  rfl

theorem append {code' : List Call} (hf : Simulates n oracle code f) (hg : Simulates n oracle code' g) :
    Simulates n oracle (code ++ code') fun s => f s >>= g := by
  intro k blocks s
  rw [List.append_assoc, hf, Stoppable.number_bind]
  cases f s with
  | error t => rfl
  | ok t => exact hg k blocks t

theorem gate (g : Gate) (qubits : List Qubit) (arguments : List String) :
    Simulates n oracle [.gate (g.roles (qubits.map n.qubits.place)) arguments]
      fun s => s.record (.gate (g.action qubits)) := by
  intro k blocks s
  rw [Gate.action_eq_roles]
  have hrec := RunState.record_number (n := n) s (.gate (g.roles qubits))
  simp only [Event.number] at hrec
  rw [List.singleton_append, Machine.run_cons, Machine.step, Gate.roles_map, hrec]
  beta_reduce
  cases s.record (.gate (g.roles qubits)) <;> rfl

theorem measure (qubits : List Qubit) {clbits : List Clbit}
    (h : ∀ b ∈ clbits, b ∈ n.clbits.bits) :
    Simulates n oracle [.measure (qubits.map n.qubits.place) (clbits.map n.clbits.place)]
      fun s => s.measure (oracle.named n) qubits clbits := by
  intro k blocks s
  rw [List.singleton_append, Machine.run_cons, Machine.step,
    RunState.measure_number oracle qubits h]
  beta_reduce
  cases s.measure (oracle.named n) qubits clbits <;> rfl

/-- A conditional without an alternative. -/
theorem ifThen {clbits : List Clbit} (value : UInt64) (h : ∀ b ∈ clbits, b ∈ n.clbits.bits)
    (hb : Balanced code) (hf : Simulates n oracle code f) :
    Simulates n oracle (.beginIf ⟨clbits.map n.clbits.place, value⟩ :: (code ++ [.endBlock]))
      fun s => s.read clbits value >>= fun r => if r.1 then f r.2 else .ok r.2 := by
  intro k blocks s
  have hskip : alternative (code ++ .endBlock :: k) = .endBlock :: k := by
    rw [alternative, hb, boundary_end]
  have hend : ∀ t : RunState Nat Nat,
      Machine.run oracle ⟨.endBlock :: k, .conditional :: blocks⟩ t = Machine.run oracle ⟨k, blocks⟩ t :=
    fun t => Machine.run_cons oracle _ _ _ t
  rw [List.cons_append, List.append_assoc, Machine.run_cons, Machine.step,
    RunState.read_number value h]
  beta_reduce
  cases s.read clbits value with
  | error t => rfl
  | ok r =>
    obtain ⟨holds, t⟩ := r
    cases holds with
    | true =>
      have hrun := hf (.endBlock :: k) (.conditional :: blocks) t
      simp only [hend] at hrun
      exact hrun
    | false =>
      simp only [List.singleton_append, Stoppable.number_ok, ok_bind, pure_eq_ok, hskip, hend,
        Bool.false_eq_true, if_false]

/-- A conditional with an alternative. -/
theorem ifElse {clbits : List Clbit} (value : UInt64) {elseCode : List Call}
    (h : ∀ b ∈ clbits, b ∈ n.clbits.bits) (hb : Balanced code) (hb' : Balanced elseCode)
    (hf : Simulates n oracle code f) (hg : Simulates n oracle elseCode g) :
    Simulates n oracle
      (.beginIf ⟨clbits.map n.clbits.place, value⟩ ::
        (code ++ .otherwise :: (elseCode ++ [.endBlock])))
      fun s => s.read clbits value >>= fun r => if r.1 then f r.2 else g r.2 := by
  intro k blocks s
  have hskip : alternative (code ++ .otherwise :: (elseCode ++ .endBlock :: k)) =
      elseCode ++ .endBlock :: k := by
    rw [alternative, hb, boundary_otherwise]
  have hend : ∀ t : RunState Nat Nat,
      Machine.run oracle ⟨.endBlock :: k, .conditional :: blocks⟩ t = Machine.run oracle ⟨k, blocks⟩ t :=
    fun t => Machine.run_cons oracle _ _ _ t
  have hover : ∀ t : RunState Nat Nat,
      Machine.run oracle ⟨.otherwise :: (elseCode ++ .endBlock :: k), .conditional :: blocks⟩ t =
        Machine.run oracle ⟨k, blocks⟩ t := by
    intro t
    rw [Machine.run_cons, Machine.step, hb', boundary_end]
    exact hend t
  rw [List.cons_append, List.append_assoc, List.cons_append, List.append_assoc, Machine.run_cons,
    Machine.step, RunState.read_number value h]
  beta_reduce
  cases s.read clbits value with
  | error t => rfl
  | ok r =>
    obtain ⟨holds, t⟩ := r
    cases holds with
    | true =>
      have hrun := hf (.otherwise :: (elseCode ++ .endBlock :: k)) (.conditional :: blocks) t
      simp only [hover] at hrun
      exact hrun
    | false =>
      have hrun := hg (.endBlock :: k) (.conditional :: blocks) t
      simp only [hend] at hrun
      simp only [List.singleton_append, Stoppable.number_ok, ok_bind, pure_eq_ok, hskip,
        Bool.false_eq_true, if_false]
      exact hrun

/-- From a test on, a `while` loop of a program does what the loop of the circuit does. -/
theorem whileRound {clbits : List Clbit} {value : UInt64} (h : ∀ b ∈ clbits, b ∈ n.clbits.bits)
    (hcount : ∀ s : RunState Qubit Clbit, s.Counted (f s)) (hf : Simulates n oracle code f)
    (k : List Call) (blocks : List Block) (rounds : Nat) (s : RunState Qubit Clbit)
    (hs : s.left < rounds) :
    (Machine.whileRound ⟨clbits.map n.clbits.place, value⟩ (code ++ .endBlock :: k) k blocks
        (s.number n) >>= fun next => Machine.run oracle next.1 next.2) =
      Stoppable.number n (s.repeatWhile (·.read clbits value) f rounds) >>= fun t =>
        Machine.run oracle ⟨k, blocks⟩ (t.number n) := by
  induction rounds generalizing s with
  | zero => exact absurd hs (Nat.not_lt_zero _)
  | succ rounds ih =>
    rw [Machine.whileRound, RunState.repeatWhile, RunState.read_number value h]
    cases hr : s.read clbits value with
    | error t => rfl
    | ok r =>
      obtain ⟨holds, t⟩ := r
      have hlt := RunState.read_left hr
      cases holds with
      | false => rfl
      | true =>
        have hrun := hf (.endBlock :: k)
          (.whileLoop ⟨clbits.map n.clbits.place, value⟩ (code ++ .endBlock :: k) :: blocks) t
        simp only [Stoppable.number_ok, Stoppable.number_bind, ok_bind, pure_eq_ok, if_true, hrun]
        have hle := hcount t
        cases hu : f t with
        | error trace => rfl
        | ok u =>
          rw [hu] at hle
          have hleft := hle.1
          simp only [Stoppable.number_ok, ok_bind]
          rw [Machine.run_cons, ← ih u (by omega)]
          rfl

theorem whileLoop {clbits : List Clbit} (value : UInt64) (h : ∀ b ∈ clbits, b ∈ n.clbits.bits)
    (hcount : ∀ s : RunState Qubit Clbit, s.Counted (f s)) (hb : Balanced code)
    (hf : Simulates n oracle code f) :
    Simulates n oracle (.beginWhile ⟨clbits.map n.clbits.place, value⟩ :: (code ++ [.endBlock]))
      fun s => s.repeatWhile (·.read clbits value) f (s.left + 1) := by
  intro k blocks s
  rw [← whileRound h hcount hf k blocks _ s (Nat.lt_succ_self _), List.cons_append,
    List.append_assoc, Machine.run_cons, Machine.step, hb]
  simp only [List.singleton_append, boundary_end, List.tail_cons]

/-- From any round on, a `for` loop of a program does what the loop of the circuit does. -/
theorem forRound {cursor : Cursor} {items : List Int} (hy : cursor.Yields items)
    (hf : Simulates n oracle code f) (k : List Call) (blocks : List Block)
    (s : RunState Qubit Clbit) :
    (Machine.forRound cursor (code ++ .endBlock :: k) k blocks (s.number n) >>= fun next =>
        Machine.run oracle next.1 next.2) =
      Stoppable.number n (s.forEach f items) >>= fun t =>
        Machine.run oracle ⟨k, blocks⟩ (t.number n) := by
  induction hy generalizing s with
  | done hnext =>
    rw [Machine.forRound, hnext]
    rfl
  | @next cursor after v rest hnext _ ih =>
    have hrec := RunState.record_number (n := n) s (.iterate v)
    simp only [Event.number] at hrec
    rw [Machine.forRound, hnext, RunState.forEach]
    simp only [hrec]
    cases s.record (.iterate v) with
    | error t => rfl
    | ok t =>
      have hrun := hf (.endBlock :: k) (.forLoop after (code ++ .endBlock :: k) :: blocks) t
      simp only [Stoppable.number_ok, Stoppable.number_bind, ok_bind, pure_eq_ok, hrun]
      cases f t with
      | error trace => rfl
      | ok u =>
        simp only [Stoppable.number_ok, ok_bind]
        rw [Machine.run_cons, ← ih u]
        rfl

theorem forLoop {header : LoopHeader} {items : List Int} (hy : header.cursor.Yields items)
    (hb : Balanced code) (hf : Simulates n oracle code f) :
    Simulates n oracle (.beginFor header :: (code ++ [.endBlock])) fun s => s.forEach f items := by
  intro k blocks s
  rw [← forRound hy hf k blocks s, List.cons_append, List.append_assoc, Machine.run_cons,
    Machine.step, hb]
  simp only [List.singleton_append, boundary_end, List.tail_cons]

end Simulates

/-! ## Emitted lines -/

variable {s : Surroundings} {scope : Scope} {depth : Nat} {ops : List Operation} {ls : List Line}

theorem balanced_emits (h : s.Emits scope depth ops ls) : Balanced (ls.map Line.call) := by
  induction h with
  | nil => exact fun _ _ => rfl
  | gate _ _ ih => exact fun inner k => by simpa [boundary, Call.opensBlock] using ih inner k
  | measure _ _ _ ih => exact fun inner k => by simpa [boundary, Call.opensBlock] using ih inner k
  | ifThen _ _ _ _ ihThen ih => simpa using (Balanced.block rfl ihThen).append ih
  | ifElse _ _ _ _ _ ihThen ihElse ih => simpa using (Balanced.conditional rfl ihThen ihElse).append ih
  | whileLoop _ _ _ ihBody ih => simpa using (Balanced.block rfl ihBody).append ih
  | forLoop _ _ _ ihBody ih => simpa using (Balanced.block rfl ihBody).append ih

theorem Simulates.cons {c : Circuit} {named : Oracle Qubit Clbit} {oracle : Oracle Nat Nat}
    {code more : List Call} {rest : List Operation} (op : Operation)
    (h : Simulates n oracle code (Operation.execute c named op))
    (hrest : Simulates n oracle more (Operation.executeAll c named rest)) :
    Simulates n oracle (code ++ more) (Operation.executeAll c named (op :: rest)) := by
  have e : Operation.executeAll c named (op :: rest) =
      fun s => Operation.execute c named op s >>= Operation.executeAll c named rest := by
    funext s
    rw [Operation.executeAll]
  rw [e]
  exact h.append hrest

/-- The lines of operations do what the operations do. -/
theorem simulates_emits (oracle : Oracle Nat Nat)
    (h : s.Emits scope depth ops ls) :
    Simulates s.numbering oracle (ls.map Line.call)
      (Operation.executeAll s.circuit (oracle.named s.numbering) ops) := by
  induction h with
  | nil => exact Simulates.nil
  | @gate scope depth g qubits operands rest ls hops _ ih =>
    obtain ⟨-, rfl⟩ := Numbering.mapM_resolve_eq_ok_iff.1 hops
    exact Simulates.cons (.gate g qubits) (Simulates.gate g qubits _) ih
  | @measure scope depth qubits clbits qs cs rest ls hqs hcs _ ih =>
    obtain ⟨-, rfl⟩ := Numbering.mapM_resolve_eq_ok_iff.1 hqs
    obtain ⟨hall, rfl⟩ := Numbering.mapM_resolve_eq_ok_iff.1 hcs
    exact Simulates.cons (.measure qubits clbits) (Simulates.measure qubits hall) ih
  | @ifThen scope depth condition thenBody elseBody guard rest thenLines ls hguard helse hthen _ ihThen ih =>
    obtain ⟨-, hall, rfl⟩ := Surroundings.guard_eq_ok_iff.1 hguard
    have hop := Simulates.ifThen condition.value hall (balanced_emits hthen) ihThen
    have e : Operation.execute s.circuit (oracle.named s.numbering)
        (.ifElse condition thenBody elseBody) = fun st =>
          st.read (s.circuit.conditionBits condition) condition.value >>= fun r =>
            if r.1 then Operation.executeAll s.circuit (oracle.named s.numbering) thenBody r.2
            else .ok r.2 := by
      funext st
      rw [Operation.execute]
      cases elseBody with
      | none => rfl
      | some body =>
        cases (helse : body = [])
        rfl
    rw [← e] at hop
    simpa using Simulates.cons _ hop ih
  | @ifElse scope depth condition thenBody elseBody guard rest thenLines elseLines ls hguard _ hthen helse _
      ihThen ihElse ih =>
    obtain ⟨-, hall, rfl⟩ := Surroundings.guard_eq_ok_iff.1 hguard
    have hop := Simulates.ifElse condition.value hall (balanced_emits hthen) (balanced_emits helse)
      ihThen ihElse
    have e : Operation.execute s.circuit (oracle.named s.numbering)
        (.ifElse condition thenBody (some elseBody)) = fun st =>
          st.read (s.circuit.conditionBits condition) condition.value >>= fun r =>
            if r.1 then Operation.executeAll s.circuit (oracle.named s.numbering) thenBody r.2
            else Operation.executeAll s.circuit (oracle.named s.numbering) elseBody r.2 := by
      funext st
      rw [Operation.execute]
    rw [← e] at hop
    simpa using Simulates.cons _ hop ih
  | @whileLoop scope depth condition body guard rest bodyLines ls hguard hbody _ ihBody ih =>
    obtain ⟨-, hall, rfl⟩ := Surroundings.guard_eq_ok_iff.1 hguard
    have hop := Simulates.whileLoop condition.value hall (executeAll_counted _ _ body)
      (balanced_emits hbody) ihBody
    simpa using Simulates.cons (.whileLoop condition body) hop ih
  | @forLoop scope depth iteration loopVar body header rest bodyLines ls hheader hbody _ ihBody ih =>
    have hyields := (Surroundings.header_eq_ok_iff.1 hheader).2.yields
    have hop := Simulates.forLoop hyields (balanced_emits hbody) ihBody
    simpa using Simulates.cons (.forLoop iteration loopVar body) hop ih

/-- **Emission keeps what a run shows.** For every oracle and every bound the program shows the events
of the circuit, in order and with numbers in place of bits, and comes to its end if the circuit does;
and a run that does not come to its end shows as many events as the bound allows. -/
theorem emit_preserves_observations {c : Circuit} {settings : Settings} {p : Program}
    (h : c.emit settings = .ok p) (oracle : Oracle Nat Nat) (bound : Nat) :
    p.observe oracle bound =
      (c.observe (oracle.named (c.numbering settings.discovery)) bound).number
        (c.numbering settings.discovery) ∧
    ((p.observe oracle bound).finished = false → (p.observe oracle bound).trace.length = bound) := by
  obtain ⟨ls, hls, hp⟩ := c.emit_eq_ok h
  have hsim := simulates_emits oracle hls
  have hstart : (RunState.start bound).number (c.numbering settings.discovery) = RunState.start bound := by
    have hmem : numberMemory (c.numbering settings.discovery) (fun _ => false) = fun _ => false := by
      funext i
      unfold numberMemory
      cases (c.numbering settings.discovery).clbits.bits[i]? <;> rfl
    simp [RunState.number, RunState.start, hmem, Trace.number]
  have heq : p.observe oracle bound =
      (c.observe (oracle.named (c.numbering settings.discovery)) bound).number
        (c.numbering settings.discovery) := by
    have hrun := hsim [] [] (.start bound)
    simp only [Circuit.surroundings, List.append_nil, hstart, Machine.run_nil] at hrun
    have hskip : Machine.run oracle ⟨p.calls, []⟩ (.start bound) =
        Machine.run oracle ⟨ls.map Line.call, []⟩ (.start bound) := by
      rw [Program.calls, hp, List.map_cons, List.map_cons, Machine.run_cons, Machine.step, ok_bind,
        Machine.run_cons, Machine.step, ok_bind]
    rw [Program.observe, hskip, hrun, Circuit.observe]
    cases Operation.executeAll c (oracle.named (c.numbering settings.discovery)) c.operations
      (.start bound) <;> rfl
  refine ⟨heq, fun hfin => ?_⟩
  rw [heq] at hfin ⊢
  have hlen := length_trace_of_not_finished c (oracle.named (c.numbering settings.discovery)) bound hfin
  simpa [Observation.number, Trace.number] using hlen

/-- A loop around a measurement and a conditional with an alternative. -/
def measuredLoop : Circuit where
  name := "measured"
  qregs := [⟨"q", 2⟩]
  cregs := [⟨"c", 2⟩]
  operations :=
    [.forLoop (.range 3 (-1) (-2)) none
      [.measure [⟨"q", 1⟩] [⟨"c", 1⟩],
       .ifElse ⟨.register "c", 2⟩ [.gate (.fixed .x) [⟨"q", 0⟩]]
        (some [.gate (.fixed .cx) [⟨"q", 1⟩, ⟨"q", 0⟩]])]]

/-- Seven of its eight events, where the first measurement finds 1 and the second one 0. -/
theorem emit_preserves_observations_measuredLoop :
    ∃ p, measuredLoop.emit { discovery := .referenced } = .ok p ∧
      p.observe (fun trace _ _ => trace.length == 1) 7 =
        (measuredLoop.observe (Oracle.named (measuredLoop.numbering .referenced)
          fun trace _ _ => trace.length == 1) 7).number (measuredLoop.numbering .referenced) ∧
      p.observe (fun trace _ _ => trace.length == 1) 7 =
        ⟨[.iterate 3, .measure [0] [0] [true], .read [1, 0] 2, .gate ⟨"x", [1], [], []⟩,
          .iterate 1, .measure [0] [0] [false], .read [1, 0] 0], false⟩ := by
  have h : measuredLoop.emit { discovery := .referenced } = .ok _ := rfl
  have key := (emit_preserves_observations h (fun trace _ _ => trace.length == 1) 7).1
  refine ⟨_, h, key, ?_⟩
  rw [key]
  rfl

end CircuitCalls
