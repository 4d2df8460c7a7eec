import CircuitCalls.Emission
import CircuitCalls.Proofs.Blocks
import CircuitCalls.Proofs.Except
import CircuitCalls.Proofs.GateAction
import Mathlib.Logic.Function.Basic

/-!
# Runs of circuits and of programs

A run is seen by its events: gates that are applied, measurements, reads of classical bits, and the
values that loop variables take. `Circuit.observe` runs the tree of operations and names bits as the
circuit does. `Program.observe` runs the flat list of calls and knows bits by number; it keeps the code
that is still to be executed and the blocks that are open, and finds the end of a block that it skips
by counting brackets.

A run may be endless. Each kind of run is therefore given a bound and is stopped when that many events
have happened and another one is due. Every round of a loop is an event, so nothing else has to be
bounded. What a measurement finds is up to an oracle, which knows all events before it.
-/

namespace CircuitCalls

/-- What can be seen of a run on qubits `Q` and classical bits `C`. -/
inductive Event (Q C : Type) where
  | gate (roles : Roles Q)
  | measure (qubits : List Q) (clbits : List C) (outcomes : List Bool)
  | read (clbits : List C) (value : Nat)
  /-- A loop variable takes a value for one round of its loop. -/
  | iterate (value : Int)
deriving DecidableEq

/-- The events of a run, the first one first. -/
abbrev Trace (Q C : Type) := List (Event Q C)

/-- What the measurement of some qubits finds for the one at a place, after the events so far. -/
abbrev Oracle (Q C : Type) := Trace Q C → List Q → Nat → Bool

/-- The state of a run: classical memory, events so far, and how many more there may be. -/
structure RunState (Q C : Type) where
  memory : C → Bool
  trace : Trace Q C
  left : Nat

/-- A step of a run, which gives its result or is stopped with the events so far. -/
abbrev Stoppable (Q C α : Type) := Except (Trace Q C) α

/-- The number that bits stand for, the first one being the least significant. -/
def bitsValue : List Bool → Nat
  | [] => 0
  | b :: rest => b.toNat + 2 * bitsValue rest

namespace RunState

variable {Q C : Type}

def start (bound : Nat) : RunState Q C := ⟨fun _ => false, [], bound⟩

/-- Adds an event, unless no more are allowed. -/
def record (s : RunState Q C) (e : Event Q C) : Stoppable Q C (RunState Q C) :=
  match s.left with
  | 0 => .error s.trace
  | left + 1 => .ok { s with trace := s.trace ++ [e], left }

def read (s : RunState Q C) (clbits : List C) (value : UInt64) :
    Stoppable Q C (Bool × RunState Q C) := do
  let found := bitsValue (clbits.map s.memory)
  let s ← s.record (.read clbits found)
  return (found == value.toNat, s)

def write [DecidableEq C] (memory : C → Bool) : List (C × Bool) → C → Bool
  | [] => memory
  | (b, value) :: rest => write (Function.update memory b value) rest

/-- Measures qubits and writes what is found to the classical bits. -/
def measure [DecidableEq C] (oracle : Oracle Q C) (s : RunState Q C) (qubits : List Q)
    (clbits : List C) : Stoppable Q C (RunState Q C) := do
  let outcomes := (List.range qubits.length).map (oracle s.trace qubits)
  let s ← s.record (.measure qubits clbits outcomes)
  return { s with memory := write s.memory (clbits.zip outcomes) }

/-- Repeats `body` as long as `test` holds, for at most `rounds` tests. -/
def repeatWhile (test : RunState Q C → Stoppable Q C (Bool × RunState Q C))
    (body : RunState Q C → Stoppable Q C (RunState Q C)) :
    Nat → RunState Q C → Stoppable Q C (RunState Q C)
  | 0, s => .error s.trace
  | rounds + 1, s => do
    let (holds, s) ← test s
    if holds then
      let s ← body s
      repeatWhile test body rounds s
    else return s

/-- Runs `body` once for each value of a loop variable. -/
def forEach (body : RunState Q C → Stoppable Q C (RunState Q C)) :
    List Int → RunState Q C → Stoppable Q C (RunState Q C)
  | [], s => .ok s
  | v :: rest, s => do
    let s ← s.record (.iterate v)
    let s ← body s
    forEach body rest s

end RunState

/-- What is seen of a run, and whether it came to its end. -/
structure Observation (Q C : Type) where
  trace : Trace Q C
  finished : Bool
deriving DecidableEq

def Observation.ofRun {Q C : Type} : Stoppable Q C (RunState Q C) → Observation Q C
  | .ok s => ⟨s.trace, true⟩
  | .error trace => ⟨trace, false⟩

/-! ## Runs of circuits -/

/-- How many strides it takes to cover a distance. -/
def strides (distance stride : Int) : Nat := ((distance + (stride - 1)) / stride).toNat

/-- The number of values from `start` by `step` on this side of `stop`. -/
def rangeLength (start stop step : Int) : Nat :=
  if 0 < step then strides (stop - start) step
  else if step < 0 then strides (start - stop) (-step)
  else 0

/-- The values that the variable of a loop takes, in order. -/
def Iteration.visited : Iteration → List Int
  | range start stop step =>
    (List.range (rangeLength start.toInt stop.toInt step.toInt)).map fun k : Nat =>
      start.toInt + step.toInt * (k : Int)
  | values items => items.map Int64.toInt
  | count n => (List.range n.toNat).map fun k : Nat => (k : Int)

namespace Operation

mutual

/-- Runs an operation. Directives do nothing that can be seen. -/
def execute (c : Circuit) (oracle : Oracle Qubit Clbit) :
    Operation → RunState Qubit Clbit → Stoppable Qubit Clbit (RunState Qubit Clbit)
  | gate g qubits, s => s.record (.gate (g.action qubits))
  | measure qubits clbits, s => s.measure oracle qubits clbits
  | ifElse condition thenBody elseBody, s => do
    let (holds, s) ← s.read (c.conditionBits condition) condition.value
    if holds then executeAll c oracle thenBody s
    else
      match elseBody with
      | some body => executeAll c oracle body s
      | none => return s
  -- Each test is an event, so there are never more of them than events that are left, and one.
  | whileLoop condition body, s =>
    s.repeatWhile (·.read (c.conditionBits condition) condition.value) (executeAll c oracle body)
      (s.left + 1)
  | forLoop iteration _ body, s => s.forEach (executeAll c oracle body) iteration.visited
  | directive _ _, s => .ok s

def executeAll (c : Circuit) (oracle : Oracle Qubit Clbit) :
    List Operation → RunState Qubit Clbit → Stoppable Qubit Clbit (RunState Qubit Clbit)
  | [], s => .ok s
  | op :: rest, s => do
    let s ← execute c oracle op s
    executeAll c oracle rest s

end

end Operation

/-- What is seen of at most `bound` events of a circuit. -/
def Circuit.observe (c : Circuit) (oracle : Oracle Qubit Clbit) (bound : Nat) :
    Observation Qubit Clbit :=
  .ofRun (Operation.executeAll c oracle c.operations (.start bound))

/-! ## Runs of programs -/

/-- Where a loop of a program stands. -/
inductive Cursor where
  /-- The variable has a value and goes on by `step`, as long as `stop` is not reached. -/
  | counting (value stop step : Int)
  | listing (items : List Int)

/-- The value for the next round, and where the loop stands after it; nothing if the loop is over. -/
def Cursor.next? : Cursor → Option (Int × Cursor)
  | counting value stop step =>
    if (0 < step ∧ value < stop) ∨ (step < 0 ∧ stop < value) then
      some (value, counting (value + step) stop step)
    else none
  | listing [] => none
  | listing (v :: rest) => some (v, listing rest)

/-- Where a loop stands before its first round. -/
def LoopHeader.cursor : LoopHeader → Cursor
  | range _ start stop step => .counting start.toInt stop.toInt step.toInt
  | values _ items => .listing (items.map Int64.toInt)

/-- A block that is open. A loop keeps the code behind its first line, to which it returns. -/
inductive Block where
  | conditional
  | whileLoop (guard : Guard) (body : List Call)
  | forLoop (cursor : Cursor) (body : List Call)

/-- The code from the next `otherwise` or end on that belongs to the block around it, where `inner`
more blocks are open. -/
def boundary (inner : Nat) : List Call → List Call
  | [] => []
  | call :: rest =>
    if call.opensBlock then boundary (inner + 1) rest
    else if call = .endBlock then
      match inner with
      | 0 => call :: rest
      | inner + 1 => boundary inner rest
    else if call = .otherwise ∧ inner = 0 then call :: rest
    else boundary inner rest

/-- The code of the alternative of a conditional, or its end if it has none. -/
def alternative (code : List Call) : List Call :=
  match boundary 0 code with
  | .otherwise :: rest => rest
  | rest => rest

/-- The code still to be executed, and the open blocks, innermost first. -/
structure Machine where
  code : List Call
  blocks : List Block

namespace Machine

/-- Starts a round of a `while` loop, or leaves the loop for the code at `exit`. -/
def whileRound (guard : Guard) (body exit : List Call) (blocks : List Block) (s : RunState Nat Nat) :
    Stoppable Nat Nat (Machine × RunState Nat Nat) := do
  let (holds, s) ← s.read guard.clbits guard.value
  if holds then return (⟨body, .whileLoop guard body :: blocks⟩, s) else return (⟨exit, blocks⟩, s)

/-- Starts a round of a `for` loop, or leaves the loop for the code at `exit`. -/
def forRound (cursor : Cursor) (body exit : List Call) (blocks : List Block) (s : RunState Nat Nat) :
    Stoppable Nat Nat (Machine × RunState Nat Nat) :=
  match cursor.next? with
  | some (v, cursor) => do
    let s ← s.record (.iterate v)
    return (⟨body, .forLoop cursor body :: blocks⟩, s)
  | none => .ok (⟨exit, blocks⟩, s)

/-- Executes the first call of the code; `rest` is the code behind it. -/
def step (oracle : Oracle Nat Nat) (rest : List Call) (blocks : List Block) (s : RunState Nat Nat) :
    Call → Stoppable Nat Nat (Machine × RunState Nat Nat)
  | .setQubitCount _ => .ok (⟨rest, blocks⟩, s)
  | .setClbitCount _ => .ok (⟨rest, blocks⟩, s)
  | .gate roles _ => do
    let s ← s.record (.gate roles)
    return (⟨rest, blocks⟩, s)
  | .measure qubits clbits => do
    let s ← s.measure oracle qubits clbits
    return (⟨rest, blocks⟩, s)
  | .beginIf guard => do
    let (holds, s) ← s.read guard.clbits guard.value
    return (⟨if holds then rest else alternative rest, .conditional :: blocks⟩, s)
  | .otherwise => .ok (⟨boundary 0 rest, blocks⟩, s)
  | .beginWhile guard => whileRound guard rest (boundary 0 rest).tail blocks s
  | .beginFor header => forRound header.cursor rest (boundary 0 rest).tail blocks s
  | .endBlock =>
    match blocks with
    | [] => .ok (⟨rest, []⟩, s)
    | .conditional :: blocks => .ok (⟨rest, blocks⟩, s)
    | .whileLoop guard body :: blocks => whileRound guard body rest blocks s
    | .forLoop cursor body :: blocks => forRound cursor body rest blocks s

end Machine

/-! ### A step is an event or shortens the code -/

/-- Skipping code does not add any, which is why a jump out of a block ends. -/
theorem length_boundary_le (inner : Nat) (code : List Call) :
    (boundary inner code).length ≤ code.length := by
  induction code generalizing inner with
  | nil => simp [boundary]
  | cons call rest ih =>
    unfold boundary
    split
    · exact Nat.le_succ_of_le (ih _)
    · split
      · split
        · exact Nat.le_refl _
        · exact Nat.le_succ_of_le (ih _)
      · split
        · exact Nat.le_refl _
        · exact Nat.le_succ_of_le (ih _)

namespace RunState

variable {Q C : Type}

theorem record_eq_ok_iff {s t : RunState Q C} {e : Event Q C} :
    s.record e = .ok t ↔ ∃ left, s.left = left + 1 ∧ t = { s with trace := s.trace ++ [e], left } := by
  unfold record
  cases s.left with
  | zero => simp
  | succ left => simp [eq_comm]

theorem read_eq_ok_iff {s t : RunState Q C} {clbits : List C} {value : UInt64} {holds : Bool} :
    s.read clbits value = .ok (holds, t) ↔
      s.record (.read clbits (bitsValue (clbits.map s.memory))) = .ok t ∧
        holds = (bitsValue (clbits.map s.memory) == value.toNat) := by
  unfold read
  rw [bind_eq_ok_iff]
  constructor
  · rintro ⟨u, hu, h⟩
    cases h
    exact ⟨hu, rfl⟩
  · rintro ⟨hu, rfl⟩
    exact ⟨t, hu, rfl⟩

theorem read_left {s t : RunState Q C} {clbits : List C} {value : UInt64} {holds : Bool}
    (h : s.read clbits value = .ok (holds, t)) : t.left < s.left := by
  obtain ⟨left, hl, rfl⟩ := record_eq_ok_iff.1 (read_eq_ok_iff.1 h).1
  simp [hl]

theorem record_left {s t : RunState Q C} {e : Event Q C} (h : s.record e = .ok t) :
    t.left < s.left := by
  obtain ⟨left, hl, rfl⟩ := record_eq_ok_iff.1 h
  simp [hl]

theorem measure_left [DecidableEq C] {oracle : Oracle Q C} {s t : RunState Q C} {qubits : List Q}
    {clbits : List C} (h : s.measure oracle qubits clbits = .ok t) : t.left < s.left := by
  obtain ⟨u, hu, h⟩ := bind_eq_ok_iff.1 h
  have hlt := record_left hu
  cases h
  exact hlt

end RunState

namespace Machine

theorem whileRound_left {guard : Guard} {body exit : List Call} {blocks : List Block}
    {s t : RunState Nat Nat} {m : Machine} (h : whileRound guard body exit blocks s = .ok (m, t)) :
    t.left < s.left := by
  obtain ⟨⟨holds, u⟩, hu, h⟩ := bind_eq_ok_iff.1 h
  have hlt := RunState.read_left hu
  cases holds <;> cases h <;> exact hlt

theorem forRound_left {cursor : Cursor} {body exit : List Call} {blocks : List Block}
    {s t : RunState Nat Nat} {m : Machine} (h : forRound cursor body exit blocks s = .ok (m, t)) :
    t.left < s.left ∨ (t.left = s.left ∧ m.code = exit) := by
  unfold forRound at h
  split at h
  · obtain ⟨u, hu, h⟩ := bind_eq_ok_iff.1 h
    cases h
    exact Or.inl (RunState.record_left hu)
  · cases h
    exact Or.inr ⟨rfl, rfl⟩

/-- A step uses up an event, or it leaves less code than there was. -/
theorem step_left {oracle : Oracle Nat Nat} {call : Call} {rest : List Call} {blocks : List Block}
    {s t : RunState Nat Nat} {m : Machine} (h : step oracle rest blocks s call = .ok (m, t)) :
    t.left < s.left ∨ (t.left = s.left ∧ m.code.length ≤ rest.length) := by
  have silent : ∀ {code : List Call} {blocks : List Block}, code.length ≤ rest.length →
      (.ok (⟨code, blocks⟩, s) : Stoppable Nat Nat _) = .ok (m, t) →
      t.left < s.left ∨ (t.left = s.left ∧ m.code.length ≤ rest.length) := by
    intro code blocks hle h
    cases h
    exact Or.inr ⟨rfl, hle⟩
  have skipped : (boundary 0 rest).tail.length ≤ rest.length := by
    have := length_boundary_le 0 rest
    rw [List.length_tail]
    omega
  cases call with
  | setQubitCount count => exact silent (Nat.le_refl _) h
  | setClbitCount count => exact silent (Nat.le_refl _) h
  | gate roles arguments =>
    obtain ⟨u, hu, h⟩ := bind_eq_ok_iff.1 h
    cases h
    exact Or.inl (RunState.record_left hu)
  | measure qubits clbits =>
    obtain ⟨u, hu, h⟩ := bind_eq_ok_iff.1 h
    cases h
    exact Or.inl (RunState.measure_left hu)
  | beginIf guard =>
    obtain ⟨⟨holds, u⟩, hu, h⟩ := bind_eq_ok_iff.1 h
    cases h
    exact Or.inl (RunState.read_left hu)
  | otherwise => exact silent (length_boundary_le 0 rest) h
  | beginWhile guard => exact Or.inl (whileRound_left h)
  | beginFor header =>
    rcases forRound_left h with hlt | ⟨heq, hcode⟩
    · exact Or.inl hlt
    · exact Or.inr ⟨heq, hcode ▸ skipped⟩
  | endBlock =>
    cases blocks with
    | nil => exact silent (Nat.le_refl _) h
    | cons block blocks =>
      cases block with
      | conditional => exact silent (Nat.le_refl _) h
      | whileLoop guard body => exact Or.inl (whileRound_left h)
      | forLoop cursor body =>
        rcases forRound_left h with hlt | ⟨heq, hcode⟩
        · exact Or.inl hlt
        · exact Or.inr ⟨heq, hcode ▸ Nat.le_refl _⟩

/-- Executes calls until there is no more code. -/
def run (oracle : Oracle Nat Nat) (m : Machine) (s : RunState Nat Nat) :
    Stoppable Nat Nat (RunState Nat Nat) :=
  match m with
  | ⟨[], _⟩ => .ok s
  | ⟨call :: rest, blocks⟩ =>
    match _h : step oracle rest blocks s call with
    | .error trace => .error trace
    | .ok (m, t) => run oracle m t
termination_by (s.left, m.code.length)
decreasing_by
  rcases step_left _h with hlt | ⟨heq, hle⟩
  · exact Prod.Lex.left _ _ hlt
  · rw [heq]
    exact Prod.Lex.right _ (Nat.lt_succ_of_le hle)

@[simp] theorem run_nil (oracle : Oracle Nat Nat) (blocks : List Block) (s : RunState Nat Nat) :
    run oracle ⟨[], blocks⟩ s = .ok s := by
  rw [run]

/-- A run takes one step and goes on from there. -/
theorem run_cons (oracle : Oracle Nat Nat) (call : Call) (rest : List Call) (blocks : List Block)
    (s : RunState Nat Nat) :
    run oracle ⟨call :: rest, blocks⟩ s =
      step oracle rest blocks s call >>= fun next => run oracle next.1 next.2 := by
  rw [run]
  split
  · rename_i trace h
    rw [h, error_bind]
  · rename_i m t h
    rw [h, ok_bind]

end Machine

/-- What is seen of at most `bound` events of a program. -/
def Program.observe (p : Program) (oracle : Oracle Nat Nat) (bound : Nat) : Observation Nat Nat :=
  .ofRun (Machine.run oracle ⟨p.calls, []⟩ (.start bound))

end CircuitCalls
