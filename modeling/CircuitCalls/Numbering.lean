import CircuitCalls.Circuit.Basic
import CircuitCalls.Table
import CircuitCalls.Text.Lowercase

/-!
# Numbering the bits of a circuit

The simulator knows bits by number. An index keeps a map from bits to numbers for looking them up, and
the bits in the order of their numbers. A numbering is an index in which the two are inverse to one
another, as they stay under insertions. Either all declared bits are numbered, register by register, or
only those that an operation refers to, in the order of their first mention.
-/

namespace CircuitCalls

/-- Bits and their numbers, as `BitIndex` keeps them: a map to look numbers up, and the bits in the order of
their numbers. -/
structure BitIndex (kind : BitKind) where
  lookup : Table (Bit kind) Nat
  bits : List (Bit kind)
deriving DecidableEq

namespace BitIndex

variable {kind : BitKind} {n : BitIndex kind}

def empty : BitIndex kind := ⟨.empty, []⟩

def get? (n : BitIndex kind) (b : Bit kind) : Option Nat := n.lookup.get? b

def size (n : BitIndex kind) : Nat := n.bits.length

/-- The number of a bit, and the index with that bit (`insert`): one that the map does not know gets the next
number, in the map and in the order. -/
def assign (n : BitIndex kind) (b : Bit kind) : Nat × BitIndex kind :=
  match n.get? b with
  | some i => (i, n)
  | none => (n.size, ⟨n.lookup.insert b n.size, n.bits ++ [b]⟩)

/-- Numbers and bits determine one another. -/
def IsInverse (n : BitIndex kind) : Prop := ∀ b i, n.get? b = some i ↔ n.bits[i]? = some b

theorem isInverse_empty : (empty : BitIndex kind).IsInverse := by
  intro b i
  simp [empty, get?]

/-- A bit with a number changes nothing. A new one is behind all others in the order, so its number is
new as well. -/
theorem IsInverse.assign (h : n.IsInverse) (b : Bit kind) : (n.assign b).2.IsInverse := by
  unfold BitIndex.assign
  cases hb : n.get? b with
  | some i => exact h
  | none =>
    intro a i
    have hget : (⟨n.lookup.insert b n.size, n.bits ++ [b]⟩ : BitIndex kind).get? a =
        if a = b then some n.size else n.get? a := Table.get?_insert _ _ _ _
    have hnew : ∀ j : Nat, n.bits[j]? ≠ some b := by
      intro j hj
      rw [(h b j).2 hj] at hb
      cases hb
    rw [hget]
    rcases Nat.lt_trichotomy i n.size with hi | rfl | hi
    · rw [List.getElem?_append_left hi]
      by_cases hab : a = b
      · have hne : n.size ≠ i := by omega
        simp [hab, hne, hnew i]
      · rw [if_neg hab, h a i]
    · have hlast : (n.bits ++ [b])[n.size]? = some b := List.getElem?_concat_length
      rw [hlast]
      by_cases hab : a = b
      · simp [hab]
      · have hold : n.get? a ≠ some n.size := by
          intro ha
          have hlt := (List.getElem?_eq_some_iff.1 ((h a n.size).1 ha)).1
          exact Nat.lt_irrefl _ hlt
        have hba : b ≠ a := fun e => hab e.symm
        simp [hab, hba, hold]
    · have hnone : (n.bits ++ [b])[i]? = none := by
        rw [List.getElem?_eq_none_iff, List.length_append]
        exact hi
      have hold : n.get? a ≠ some i := by
        intro ha
        have hlt := (List.getElem?_eq_some_iff.1 ((h a i).1 ha)).1
        exact Nat.lt_asymm hi hlt
      have hne : n.size ≠ i := by omega
      rw [hnone]
      by_cases hab : a = b
      · simp [hab, hne]
      · simp [hab, hold]

end BitIndex

/-- An index whose map and order agree. -/
structure Numbering (kind : BitKind) extends BitIndex kind where
  isInverse : toBitIndex.IsInverse
deriving DecidableEq

namespace Numbering

variable {kind : BitKind}

def empty : Numbering kind := ⟨.empty, BitIndex.isInverse_empty⟩

/-- The number of a bit, and the numbering with that bit: one without a number gets the next. -/
def assign (n : Numbering kind) (b : Bit kind) : Nat × Numbering kind :=
  ((n.toBitIndex.assign b).1, ⟨(n.toBitIndex.assign b).2, n.isInverse.assign b⟩)

/-- Gives a bit the next number, unless it has one. -/
def insert (n : Numbering kind) (b : Bit kind) : Numbering kind := (n.assign b).2

/-- Numbers bits in the order of their first occurrence. -/
def ofList (bits : List (Bit kind)) : Numbering kind := bits.foldl insert empty

end Numbering

/-- Which bits are numbered. -/
inductive Discovery where
  /-- Every bit of every declared register, in the order of declaration. -/
  | declared
  /-- Every bit that some operation refers to, in the order of first mention. -/
  | referenced
deriving DecidableEq, Repr

/-- No strategy has this name, which is given in lower case. -/
structure UnknownDiscovery where
  name : String
deriving DecidableEq, Repr

/-- The numbers of a circuit's qubits and of its classical bits. -/
structure CircuitNumbering where
  qubits : Numbering .quantum
  clbits : Numbering .classical
deriving DecidableEq

namespace Circuit

/-- The declared bits that a condition reads; an unknown register has none. -/
def conditionBits (c : Circuit) (condition : Condition) : List Clbit :=
  match condition.target with
  | .bit b => [b]
  | .register name => ((c.creg? name).map Register.bits).getD []

end Circuit

namespace CircuitNumbering

def empty : CircuitNumbering := ⟨.empty, .empty⟩

/-- Numbers the bits of one operation, not of those inside: its qubits, its classical bits, and then
those that its condition reads. -/
def visit (c : Circuit) (n : CircuitNumbering) (op : Operation) : CircuitNumbering :=
  let clbits := op.clbits.foldl .insert n.clbits
  { qubits := op.qubits.foldl .insert n.qubits
    clbits :=
      match op.condition? with
      | some condition => (c.conditionBits condition).foldl .insert clbits
      | none => clbits }

mutual

/-- Numbers the bits of an operation and then of those inside it (`scan`). -/
def scan (c : Circuit) (n : CircuitNumbering) : Operation → CircuitNumbering
  | .ifElse condition thenBody elseBody =>
    let n := scanAll c (n.visit c (.ifElse condition thenBody elseBody)) thenBody
    match elseBody with
    | some body => scanAll c n body
    | none => n
  | .whileLoop condition body => scanAll c (n.visit c (.whileLoop condition body)) body
  | .forLoop iteration loopVar body => scanAll c (n.visit c (.forLoop iteration loopVar body)) body
  | op => n.visit c op

def scanAll (c : Circuit) (n : CircuitNumbering) : List Operation → CircuitNumbering
  | [] => n
  | op :: rest => scanAll c (scan c n op) rest

end

end CircuitNumbering

namespace Discovery

def name : Discovery → String
  | declared => "declared"
  | referenced => "referenced"

def ofName? (name : String) : Option Discovery :=
  if name = "declared" then some declared
  else if name = "referenced" then some referenced
  else none

/-- The strategy of a name, whatever its case (`from_str`). -/
def ofText (text : String) : Except UnknownDiscovery Discovery :=
  let name := lowercase text
  match ofName? name with
  | some discovery => .ok discovery
  | none => .error ⟨name⟩

end Discovery

def UnknownDiscovery.message (e : UnknownDiscovery) : String :=
  s!"unknown discovery strategy '{e.name}' (expected 'declared' or 'referenced')"

/-- The numbering of a circuit's bits (`build`). -/
def Circuit.numbering (c : Circuit) : Discovery → CircuitNumbering
  | .declared => ⟨.ofList (c.qregs.flatMap Register.bits), .ofList (c.cregs.flatMap Register.bits)⟩
  | .referenced => CircuitNumbering.empty.scanAll c c.operations

end CircuitCalls
