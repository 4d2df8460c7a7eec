import CircuitCalls.Proofs.Compilability
import CircuitCalls.Proofs.Execution
import CircuitCalls.Proofs.ExpressionTokens
import CircuitCalls.Proofs.Registers
import CircuitCalls.Proofs.Representation

/-!
# What conditions mean

A condition of a source is an expression, and has a truth value in every classical memory
(`Expression.truth?`): registers stand for numbers, single bits for 0 and 1. A condition of a circuit
names bits and the number that they have to make up. The second is true where the first is, and reads
the bits that the first one refers to and no others.
-/

namespace CircuitCalls

/-- Whether the bits that a condition reads make up its value, the first bit being the least
significant one. -/
def Circuit.holds (c : Circuit) (memory : Clbit → Bool) (condition : Condition) : Bool :=
  bitsValue ((c.conditionBits condition).map memory) == condition.value.toNat

def Circuit.Tests (c : Circuit) (condition : Condition) : Prop :=
  ∃ op ∈ c.nodes, op.condition? = some condition

namespace Qasm

/-! ## References -/

/-- A place where an expression reads classical bits. -/
inductive Reference where
  | register (name : String)
  | bit (name : String) (index : Expression)

namespace Reference

/-- The bits that are read: all of a declared register, or the one at a constant place in it. -/
def bits? (cregs : List (Register .classical)) : Reference → Option (List Clbit)
  | register name => (findRegister? name cregs).map Register.bits
  | bit name index => do
    let r ← findRegister? name cregs
    let place ← index.natural?
    let b ← r.bits[place]?
    return [b]

/-- The register is declared, and a single bit of it is at a constant place inside it. -/
def IsDeclared (cregs : List (Register .classical)) : Reference → Prop
  | register name => ∃ r ∈ cregs, r.name = name
  | bit name index => ∃ r ∈ cregs, r.name = name ∧
      ∃ place, index.natural? = some place ∧ place < r.size.toNat

/-- Bits are read from declared registers only. -/
theorem isDeclared_of_bits? {cregs : List (Register .classical)} {ref : Reference} {bits : List Clbit}
    (h : ref.bits? cregs = some bits) : ref.IsDeclared cregs := by
  have found : ∀ {name : String} {r : Register .classical}, findRegister? name cregs = some r →
      r ∈ cregs ∧ r.name = name := fun hr =>
    ⟨List.mem_of_find?_eq_some hr, by simpa using List.find?_some hr⟩
  cases ref with
  | register name =>
    obtain ⟨r, hr, -⟩ := Option.map_eq_some_iff.1 h
    exact ⟨r, (found hr).1, (found hr).2⟩
  | bit name index =>
    obtain ⟨r, hr, h⟩ := Option.bind_eq_some_iff.1 h
    obtain ⟨place, hplace, h⟩ := Option.bind_eq_some_iff.1 h
    obtain ⟨b, hb, -⟩ := Option.bind_eq_some_iff.1 h
    obtain ⟨hlt, -⟩ := List.getElem?_eq_some_iff.1 hb
    rw [Register.length_bits] at hlt
    exact ⟨r, (found hr).1, (found hr).2, place, hplace, hlt⟩

end Reference

namespace Expression

/-- The expression as a reference, if it is one. -/
def reference? : Expression → Option Reference
  | .name register => some (.register register)
  | .index register place => some (.bit register place)
  | _ => none

mutual

def references : Expression → List Reference
  | .name register => [.register register]
  | .index register place => .bit register place :: references place
  | .unary _ operand => references operand
  | .binary _ left right => references left ++ references right
  | .call _ arguments => referencesAll arguments
  | _ => []

def referencesAll : List Expression → List Reference
  | [] => []
  | e :: more => references e ++ referencesAll more

end

/-- The bits that are read where an expression refers to some, in order. -/
def bitsRead? (cregs : List (Register .classical)) (e : Expression) : Option (List Clbit) :=
  (e.references.mapM (Reference.bits? cregs)).map List.flatten

/-! ## Truth values -/

variable (cregs : List (Register .classical)) (memory : Clbit → Bool)

/-- The number on one side of a comparison: that of the bits it reads, or a constant. -/
def number? (e : Expression) : Option Nat :=
  match e.reference? with
  | some ref => (ref.bits? cregs).map fun bits => bitsValue (bits.map memory)
  | none => (conditionValue? e).map UInt64.toNat

/-- The single bit that an expression reads. -/
def flag? (e : Expression) : Option Bool := do
  let ref ← e.reference?
  match ← ref.bits? cregs with
  | [b] => some (memory b)
  | _ => none

/-- The truth value of an expression. -/
def truth? : Expression → Option Bool
  | .binary .eq left right => do
    let x ← left.number? cregs memory
    let y ← right.number? cregs memory
    return x == y
  | .unary .not operand => (operand.flag? cregs memory).map not
  | e => e.flag? cregs memory

/-! ## Constants refer to nothing -/

/-- A constant reads no bits. -/
theorem references_of_value? {e : Expression} {v : Float} (h : e.value? = some v) : e.references = [] := by
  induction e using Expression.induction generalizing v with
  | int value => rfl
  | float value => rfl
  | bool value => rfl
  | constant c => rfl
  | name register => cases h
  | unary op operand ih =>
    cases op with
    | neg =>
      obtain ⟨w, hw, -⟩ := Option.bind_eq_some_iff.1 h
      exact ih hw
    | not => cases h
  | binary op left right ihl ihr =>
    obtain ⟨x, hx, h⟩ := Option.bind_eq_some_iff.1 h
    obtain ⟨y, hy, -⟩ := Option.bind_eq_some_iff.1 h
    rw [references, ihl hx, ihr hy, List.append_nil]
  | call function arguments ih => cases h
  | index register place ih => cases h

theorem references_of_integer? {e : Expression} {v : Int64} (h : e.integer? = some v) :
    e.references = [] := by
  induction e using Expression.induction generalizing v with
  | unary op operand ih =>
    cases op with
    | neg =>
      obtain ⟨w, hw, -⟩ := Option.bind_eq_some_iff.1 h
      exact ih hw
    | not => cases h
  | binary op left right ihl ihr =>
    obtain ⟨x, hx, -⟩ := Option.bind_eq_some_iff.1 h
    exact references_of_value? hx
  | name register => cases h
  | call function arguments ih => cases h
  | index register place ih => cases h
  | _ => rfl

theorem references_of_natural? {e : Expression} {n : Nat} (h : e.natural? = some n) :
    e.references = [] := by
  obtain ⟨v, hv, -⟩ := Option.bind_eq_some_iff.1 h
  exact references_of_integer? hv

end Expression

/-! ## Bits and constants in conditions -/

/-- The expression is a reference, to the declared bits of the target and to nothing else. -/
structure RefersTo (c : Circuit) (e : Expression) (ref : Reference) (target : ConditionTarget) :
    Prop where
  reference : e.reference? = some ref
  references : e.references = [ref]
  bits : ∀ value, ref.bits? c.cregs = some (c.conditionBits ⟨target, value⟩)
  declares : c.Declares target

theorem bits_index {kind : BitKind} {registers : List (Register kind)} {name : String}
    {i : UInt32} {bits : List (Bit kind)} (h : Operand.bits registers ⟨name, .index i⟩ = .ok bits) :
    ∃ r, findRegister? name registers = some r ∧ i < r.size ∧ bits = [⟨r.name, i⟩] := by
  unfold Operand.bits at h
  split at h
  · rename_i r hr
    obtain ⟨⟨⟩, hcheck, h⟩ := bind_eq_ok_iff.1 h
    cases h
    exact ⟨r, hr, checkIndex_eq_ok_iff.1 hcheck, rfl⟩
  · cases h

/-- The target of a condition is what the expression refers to. -/
theorem refersTo_of_target {c : Circuit} {e : Expression} {target : ConditionTarget}
    (h : conditionTarget? c.cregs e = .ok (some target)) : ∃ ref, RefersTo c e ref target := by
  unfold conditionTarget? at h
  split at h
  · rename_i name
    split at h <;> cases h
    rename_i hsome
    obtain ⟨r, hr⟩ := Option.isSome_iff_exists.1 hsome
    have hcreg : c.creg? name = some r := hr
    refine ⟨.register name, rfl, rfl, fun value => ?_, hsome⟩
    simp [Reference.bits?, hr, Circuit.conditionBits, hcreg]
  · rename_i name index
    split at h
    · rename_i place hplace
      split at h
      · rename_i hlt
        obtain ⟨bits, hbits, h⟩ := bind_eq_ok_iff.1 h
        rw [operandBits_singleton] at hbits
        obtain ⟨r, hr, hin, rfl⟩ := bits_index hbits
        cases h
        refine ⟨.bit name index, rfl, ?_, fun value => ?_, ?_⟩
        · rw [Expression.references, Expression.references_of_natural? hplace]
        · have hget := (r.getElem?_bits _).trans (Register.bit?_of_lt hin)
          rw [UInt32.toNat_ofNat_of_lt' hlt] at hget
          simp [Reference.bits?, hr, hplace, hget, Circuit.conditionBits]
        · have hmem := List.mem_of_getElem? ((r.getElem?_bits _).trans (Register.bit?_of_lt hin))
          exact List.any_eq_true.2 ⟨r, List.mem_of_find?_eq_some hr, Register.mem_bits.1 hmem⟩
      · cases h
    · cases h
  · cases h

theorem constant_of_conditionValue? {e : Expression} {v : UInt64} (h : conditionValue? e = some v) :
    e.reference? = none ∧ e.references = [] := by
  unfold conditionValue? at h
  split at h
  · exact ⟨rfl, rfl⟩
  · obtain ⟨n, hn, -⟩ := Option.map_eq_some_iff.1 h
    refine ⟨?_, Expression.references_of_natural? hn⟩
    cases e <;> first | rfl | cases hn

/-! ## The forms of a condition -/

/-- An expression that stands for a condition: bits compared with a constant on either side, a single bit,
or the negation of one. -/
inductive IsCondition (c : Circuit) : Expression → Reference → Condition → Prop where
  | equals {left right : Expression} {ref : Reference} {target : ConditionTarget} {value : UInt64} :
      RefersTo c left ref target → conditionValue? right = some value →
      IsCondition c (.binary .eq left right) ref ⟨target, value⟩
  | constantFirst {left right : Expression} {ref : Reference} {target : ConditionTarget}
      {value : UInt64} : RefersTo c right ref target → conditionValue? left = some value →
      IsCondition c (.binary .eq left right) ref ⟨target, value⟩
  | negated {operand : Expression} {ref : Reference} {b : Clbit} :
      RefersTo c operand ref (.bit b) → IsCondition c (.unary .not operand) ref ⟨.bit b, 0⟩
  | single {e : Expression} {ref : Reference} {target : ConditionTarget} {b : Clbit} :
      RefersTo c e ref target → c.conditionBits ⟨target, 1⟩ = [b] → IsCondition c e ref ⟨target, 1⟩

theorem conditionBits_bit (c : Circuit) (b : Clbit) (value : UInt64) :
    c.conditionBits ⟨.bit b, value⟩ = [b] := rfl

section

variable {c : Circuit} {e : Expression} {ref : Reference} {cond : Condition}

/-- A comparison is a condition if one side refers to bits and the other one is a constant, in either order.
-/
theorem isCondition_of_comparison {left right : Expression}
    (h : condition? c.cregs (.binary .eq left right) = .ok (some cond)) :
    ∃ ref, IsCondition c (.binary .eq left right) ref cond := by
  obtain ⟨found, hfound, h⟩ := bind_eq_ok_iff.1 h
  obtain ⟨first, hfirst, hfound⟩ := bind_eq_ok_iff.1 hfound
  cases first with
  | some target =>
    cases hfound
    obtain ⟨value, hvalue, rfl⟩ := Option.map_eq_some_iff.1 (Except.ok.inj h)
    obtain ⟨ref, href⟩ := refersTo_of_target hfirst
    exact ⟨ref, .equals href hvalue⟩
  | none =>
    obtain ⟨second, hsecond, hfound⟩ := bind_eq_ok_iff.1 hfound
    cases second with
    | some target =>
      cases hfound
      obtain ⟨value, hvalue, rfl⟩ := Option.map_eq_some_iff.1 (Except.ok.inj h)
      obtain ⟨ref, href⟩ := refersTo_of_target hsecond
      exact ⟨ref, .constantFirst href hvalue⟩
    | none =>
      cases hfound
      cases h

/-- Only the forms of `IsCondition` are read as conditions. -/
theorem isCondition_of_condition (h : condition c.cregs e = .ok cond) :
    ∃ ref, IsCondition c e ref cond := by
  obtain ⟨found, hfound, h⟩ := bind_eq_ok_iff.1 h
  cases found with
  | none => cases h
  | some cond' =>
    cases h
    unfold condition? at hfound
    split at hfound
    · exact isCondition_of_comparison hfound
    · obtain ⟨target, htarget, hfound⟩ := bind_eq_ok_iff.1 hfound
      split at hfound <;> cases hfound
      obtain ⟨ref, href⟩ := refersTo_of_target htarget
      exact ⟨ref, .negated href⟩
    · obtain ⟨target, htarget, hfound⟩ := bind_eq_ok_iff.1 hfound
      split at hfound
      · rename_i b
        cases hfound
        obtain ⟨ref, href⟩ := refersTo_of_target htarget
        exact ⟨ref, .single href (conditionBits_bit c b 1)⟩
      · split at hfound <;> cases hfound
        rename_i name hsize
        obtain ⟨r, hr, hone⟩ := Option.map_eq_some_iff.1 hsize
        obtain ⟨ref, href⟩ := refersTo_of_target htarget
        have hcreg : c.creg? name = some r := hr
        refine ⟨ref, .single (b := ⟨r.name, 0⟩) href ?_⟩
        simp [Circuit.conditionBits, hcreg, Register.bits, hone]
      · cases hfound

/-! ## What a condition reads -/

theorem IsCondition.references (h : IsCondition c e ref cond) : e.references = [ref] := by
  cases h with
  | equals href hvalue =>
    rw [Expression.references, href.references, (constant_of_conditionValue? hvalue).2]
    rfl
  | constantFirst href hvalue =>
    rw [Expression.references, href.references, (constant_of_conditionValue? hvalue).2]
    rfl
  | negated href => exact href.references
  | single href _ => exact href.references

theorem IsCondition.reads (h : IsCondition c e ref cond) :
    ref.bits? c.cregs = some (c.conditionBits cond) ∧ c.Declares cond.target := by
  cases h with
  | equals href _ | constantFirst href _ | negated href | single href _ =>
    exact ⟨href.bits _, href.declares⟩

end

/-! ## Equal truth values -/

section

variable {c : Circuit} {e : Expression} {ref : Reference} {target : ConditionTarget} {b : Clbit}

theorem RefersTo.number? (h : RefersTo c e ref target) (memory : Clbit → Bool) (value : UInt64) :
    e.number? c.cregs memory = some (bitsValue ((c.conditionBits ⟨target, value⟩).map memory)) := by
  simp only [Expression.number?, h.reference, h.bits value, Option.map_some]

theorem number?_of_conditionValue? {v : UInt64} (h : conditionValue? e = some v)
    (cregs : List (Register .classical)) (memory : Clbit → Bool) :
    e.number? cregs memory = some v.toNat := by
  simp only [Expression.number?, (constant_of_conditionValue? h).1, h, Option.map_some]

/-- A reference to one bit is true where the bit is 1. -/
theorem RefersTo.flag? (h : RefersTo c e ref target) (memory : Clbit → Bool) {value : UInt64}
    (hone : c.conditionBits ⟨target, value⟩ = [b]) : e.flag? c.cregs memory = some (memory b) := by
  rw [Expression.flag?, h.reference, Option.bind_eq_bind, Option.bind_some, h.bits value, hone]
  rfl

theorem RefersTo.truth? (h : RefersTo c e ref target) (memory : Clbit → Bool) :
    e.truth? c.cregs memory = e.flag? c.cregs memory := by
  have href := h.reference
  cases e <;> first | rfl | cases href

theorem holds_one {memory : Clbit → Bool} (hone : c.conditionBits ⟨target, 1⟩ = [b]) :
    c.holds memory ⟨target, 1⟩ = memory b := by
  rw [Circuit.holds, hone]
  cases hb : memory b <;> simp [bitsValue, hb]

theorem holds_bit_zero (memory : Clbit → Bool) : c.holds memory ⟨.bit b, 0⟩ = !memory b := by
  rw [Circuit.holds, conditionBits_bit]
  cases hb : memory b <;> simp [bitsValue, hb]

end

/-- A condition holds where the expression it was made from is true. -/
theorem IsCondition.truth? {c : Circuit} {e : Expression} {ref : Reference} {cond : Condition}
    (h : IsCondition c e ref cond) (memory : Clbit → Bool) :
    e.truth? c.cregs memory = some (c.holds memory cond) := by
  cases h with
  | equals href hvalue =>
    rw [Expression.truth?, href.number? memory, number?_of_conditionValue? hvalue]
    rfl
  | constantFirst href hvalue =>
    rw [Expression.truth?, href.number? memory, number?_of_conditionValue? hvalue]
    exact congrArg some Bool.beq_comm
  | @negated operand _ b href =>
    rw [Expression.truth?, href.flag? memory (conditionBits_bit c b 0), holds_bit_zero]
    rfl
  | single href hone => rw [href.truth? memory, href.flag? memory hone, holds_one hone]

/-! ## Guards -/

/-- All bits of a condition are numbered, if the condition belongs to the circuit or all declared bits
are. -/
theorem exists_guard {c : Circuit} {cond : Condition} (hdeclares : c.Declares cond.target)
    {settings : Settings} (h : settings.discovery = .declared ∨ c.Tests cond) :
    ∃ guard, (c.surroundings settings).guard cond = .ok guard := by
  refine ⟨_, Surroundings.guard_eq_ok_iff.2 ⟨fun name hname => ?_, fun b hb => ?_, rfl⟩⟩
  · rw [hname] at hdeclares
    exact hdeclares
  · change b ∈ c.conditionBits cond at hb
    change b ∈ (c.numbering settings.discovery).clbits.bits
    have hhas := Circuit.hasClbit_of_declares hdeclares hb
    cases hd : settings.discovery with
    | declared => exact Circuit.mem_declared_clbits.2 hhas
    | referenced =>
      obtain ⟨op, hop, hcond⟩ := h.resolve_left (by simp [hd])
      refine Circuit.mem_referenced_clbits.2 ⟨op, hop, ?_⟩
      simp [Circuit.usedClbits, hcond, hb]

/-- A condition that is accepted is true where its expression is, refers to declared bits only, and
its guard reads the bits that the expression refers to, in the order of their registers. -/
theorem conditions_keep_their_meaning {c : Circuit} {e : Expression} {cond : Condition}
    (h : condition c.cregs e = .ok cond) :
    (∀ memory, e.truth? c.cregs memory = some (c.holds memory cond)) ∧
    (∀ ref ∈ e.references, ref.IsDeclared c.cregs) ∧
    ∃ bits, e.bitsRead? c.cregs = some bits ∧
      ∀ settings : Settings, settings.discovery = .declared ∨ c.Tests cond →
        ∃ guard, (c.surroundings settings).guard cond = .ok guard ∧ guard.value = cond.value ∧
          (c.numbering settings.discovery).clbits.Gives bits guard.clbits := by
  obtain ⟨ref, hform⟩ := isCondition_of_condition h
  have hrefs := hform.references
  obtain ⟨hbits, hdeclares⟩ := hform.reads
  refine ⟨hform.truth?, fun ref' hmem => ?_, c.conditionBits cond, ?_, fun settings hnumbered => ?_⟩
  · rw [hrefs, List.mem_singleton] at hmem
    rw [hmem]
    exact Reference.isDeclared_of_bits? hbits
  · simp [Expression.bitsRead?, hrefs, hbits]
  · obtain ⟨guard, hguard⟩ := exists_guard hdeclares hnumbered
    obtain ⟨clbits, hgives, rfl⟩ := Surroundings.guard_gives hguard
    exact ⟨_, hguard, rfl, hgives⟩

/-- A circuit that loops while the second of two flags is set and the first one is not. -/
def flagLoop : Circuit where
  name := "flags"
  qregs := []
  cregs := [⟨"flags", 2⟩]
  operations := [.forLoop (.values [0, 1]) none [.whileLoop ⟨.register "flags", 2⟩ []]]

theorem conditions_keep_their_meaning_flagLoop :
    condition flagLoop.cregs (.binary .eq (.int 2) (.name "flags")) =
      .ok ⟨.register "flags", 2⟩ ∧
    flagLoop.Tests ⟨.register "flags", 2⟩ ∧
    (∀ memory, Expression.truth? flagLoop.cregs memory
      (.binary .eq (.int 2) (.name "flags")) =
        some (flagLoop.holds memory ⟨.register "flags", 2⟩)) ∧
    ∀ settings : Settings, ∃ guard,
      (flagLoop.surroundings settings).guard ⟨.register "flags", 2⟩ = .ok guard ∧
      guard.value = 2 ∧ (flagLoop.numbering settings.discovery).clbits.Gives
        [⟨"flags", 0⟩, ⟨"flags", 1⟩] guard.clbits := by
  have haccepted : condition flagLoop.cregs (.binary .eq (.int 2) (.name "flags")) =
      .ok ⟨.register "flags", 2⟩ := rfl
  have htests : flagLoop.Tests ⟨.register "flags", 2⟩ :=
    ⟨.whileLoop ⟨.register "flags", 2⟩ [], by simp [Circuit.nodes, flagLoop,
      Operation.nodesAll, Operation.nodes], rfl⟩
  obtain ⟨htruth, -, bits, hbits, hguard⟩ := conditions_keep_their_meaning haccepted
  cases hbits
  exact ⟨haccepted, htests, htruth, fun settings => hguard settings (.inr htests)⟩

end Qasm

end CircuitCalls
