import CircuitCalls.Proofs.Registers
import Mathlib.Data.List.Induction

/-!
# The order of numbers

An index has two halves, a map and an order, and an insertion changes both. It keeps them inverse, and
the index then answers as a plain list of distinct bits does, in which the number of a bit is its place
(`BitIndex.Refines`). So inserting bits one after the other numbers them by their first insertion: a bit
that has a number keeps it, and a new one gets the next. The numbers of a circuit follow from that. By
declaration a bit comes behind all bits of the registers before its own; by reference the bits are
numbered as they come up first when the operations are read in document order.
-/

namespace CircuitCalls

namespace BitIndex

variable {kind : BitKind} {n : BitIndex kind} {bits : List (Bit kind)} {b : Bit kind} {i : Nat}

def ofList (bits : List (Bit kind)) : BitIndex kind := bits.foldl (fun n b => (n.assign b).2) empty

/-- The number of a bit in a plain list, and the list with that bit. -/
def assignPlace (bits : List (Bit kind)) (b : Bit kind) : Nat × List (Bit kind) :=
  match bits.idxOf? b with
  | some i => (i, bits)
  | none => (bits.length, bits ++ [b])

/-- The index does the work of a plain list: the order is that list, and the map knows the first place
of each of its bits. -/
structure Refines (n : BitIndex kind) (bits : List (Bit kind)) : Prop where
  order : n.bits = bits
  lookup : ∀ b, n.get? b = bits.idxOf? b

theorem refines_empty : (empty : BitIndex kind).Refines [] := ⟨rfl, fun _ => rfl⟩

/-- An insertion returns the place of the bit in the list and leaves an index that does the work of the
list with the bit. -/
theorem Refines.assign (h : n.Refines bits) (b : Bit kind) :
    (n.assign b).1 = (assignPlace bits b).1 ∧ (n.assign b).2.Refines (assignPlace bits b).2 := by
  unfold BitIndex.assign assignPlace
  rw [h.lookup b]
  cases hb : bits.idxOf? b with
  | some i => exact ⟨rfl, h⟩
  | none =>
    have hsize : n.size = bits.length := by rw [size, h.order]
    refine ⟨hsize, congrArg (· ++ [b]) h.order, ?_⟩
    intro a
    have hget : (n.lookup.insert b n.size).get? a = if a = b then some n.size else bits.idxOf? a := by
      rw [Table.get?_insert, ← h.lookup a]
      rfl
    change (n.lookup.insert b n.size).get? a = (bits ++ [b]).findIdx? (· == a)
    rw [hget, hsize, List.findIdx?_append]
    by_cases hab : a = b
    · have hnone : bits.findIdx? (· == b) = none := hb
      simp [hab, hnone]
    · have hba : (b == a) = false := beq_false_of_ne fun e => hab e.symm
      simp [hab, hba, List.idxOf?]

theorem ofList_append_singleton (bits : List (Bit kind)) (b : Bit kind) :
    ofList (bits ++ [b]) = ((ofList bits).assign b).2 := by
  rw [ofList, List.foldl_append]
  rfl

/-- The insertions so far leave an index that does the work of the list of the inserted bits, each at
the place of its first insertion. -/
theorem refines_ofList (bits : List (Bit kind)) : (ofList bits).Refines bits.eraseDups := by
  induction bits using List.reverseRecOn with
  | nil => exact refines_empty
  | append_singleton bits b ih =>
    have hstep := (ih.assign b).2
    have hplace : (assignPlace bits.eraseDups b).2 = (bits ++ [b]).eraseDups := by
      unfold assignPlace
      rw [List.eraseDups_append]
      cases hfound : bits.eraseDups.idxOf? b with
      | some i =>
        have hb : b ∈ bits := by
          by_contra hb
          rw [List.idxOf?_eq_none_iff.2 (mt List.mem_eraseDups.1 hb)] at hfound
          cases hfound
        simp [hb, List.removeAll]
      | none =>
        have hb : b ∉ bits := mt List.mem_eraseDups.2 (List.idxOf?_eq_none_iff.1 hfound)
        simp [hb, List.removeAll, List.eraseDups_cons]
    rw [ofList_append_singleton, ← hplace]
    exact hstep

/-- Map and order are inverse after any insertions. -/
theorem isInverse_ofList (bits : List (Bit kind)) : (ofList bits).IsInverse := by
  induction bits using List.reverseRecOn with
  | nil => exact isInverse_empty
  | append_singleton bits b ih =>
    rw [ofList_append_singleton]
    exact ih.assign b

/-! ## Insertions one after the other -/

theorem get?_assign_self (b : Bit kind) :
    (n.assign b).2.get? b = some (n.assign b).1 := by
  unfold assign
  cases hb : n.get? b with
  | some i => exact hb
  | none =>
    have hinsert := Table.get?_insert n.lookup b n.size b
    rwa [if_pos rfl] at hinsert

/-- A number that a bit has is never taken away. -/
theorem get?_assign_of_get? (h : n.get? b = some i) (a : Bit kind) :
    (n.assign a).2.get? b = some i := by
  unfold assign
  cases ha : n.get? a with
  | some j => exact h
  | none =>
    have hne : b ≠ a := by
      rintro rfl
      rw [h] at ha
      cases ha
    have hinsert := Table.get?_insert n.lookup a n.size b
    rw [if_neg hne] at hinsert
    exact hinsert.trans h

/-- A number that has been given stays what it is. -/
theorem get?_ofList_append (more : List (Bit kind)) (h : (ofList bits).get? b = some i) :
    (ofList (bits ++ more)).get? b = some i := by
  induction more using List.reverseRecOn with
  | nil => rwa [List.append_nil]
  | append_singleton more a ih =>
    rw [← List.append_assoc, ofList_append_singleton]
    exact get?_assign_of_get? ih a

theorem get?_ofList_cons (before after : List (Bit kind)) (b : Bit kind) :
    (ofList (before ++ b :: after)).get? b = some ((ofList before).assign b).1 := by
  rw [List.append_cons]
  refine get?_ofList_append after ?_
  rw [ofList_append_singleton]
  exact get?_assign_self b

end BitIndex

/-- Numbering bits is inserting them into an index. -/
theorem Numbering.toBitIndex_ofList {kind : BitKind} (bits : List (Bit kind)) :
    (ofList bits).toBitIndex = BitIndex.ofList bits := by
  induction bits using List.reverseRecOn with
  | nil => rfl
  | append_singleton bits b ih =>
    rw [BitIndex.ofList_append_singleton, ← ih, ofList, List.foldl_append]
    rfl

/-! ## Numbers by declaration -/

/-- The number of a bit behind all bits of the registers before its own. -/
def Register.Places {kind : BitKind} (rs : List (Register kind)) (b : Bit kind) (k : Nat) : Prop :=
  ∃ before r after, rs = before ++ r :: after ∧ b.register = r.name ∧ b.index < r.size ∧
    k = total before + b.index.toNat

/-- With distinct names the number of a declared bit is its place behind all registers before its own. -/
theorem Numbering.get?_declared_iff {kind : BitKind} {rs : List (Register kind)}
    (h : (rs.map (·.name)).Nodup) {b : Bit kind} {k : Nat} :
    (ofList (rs.flatMap Register.bits)).get? b = some k ↔ Register.Places rs b k := by
  constructor
  · intro hk
    have hb : b ∈ rs.flatMap Register.bits := by
      rw [← mem_ofList]
      exact List.mem_of_getElem? (get?_eq_some_iff.1 hk)
    obtain ⟨r, hr, hbr⟩ := List.mem_flatMap.1 hb
    obtain ⟨before, after, hrs⟩ := List.append_of_mem hr
    have hin : b.register = r.name ∧ b.index < r.size := by
      simpa [Register.contains] using Register.mem_bits.1 hbr
    have hplace := place_declared h hrs hin.2
    rw [← hin.1, hk] at hplace
    exact ⟨before, r, after, hrs, hin.1, hin.2, Option.some.inj hplace⟩
  · rintro ⟨before, r, after, hrs, hname, hindex, rfl⟩
    have hplace := place_declared h hrs hindex
    rwa [← hname] at hplace

/-! ## Numbers by reference -/

/-- The bits that the operations refer to, in document order: the qubits of an operation, its classical
bits and those that its condition reads come before the bits of the operations inside it. -/
def Circuit.references (c : Circuit) : List (Qubit ⊕ Clbit) :=
  c.nodes.flatMap fun op => op.qubits.map .inl ++ (c.usedClbits op).map .inr

/-- By reference, the index of a circuit is made by inserting its references. -/
theorem Circuit.toBitIndex_referenced (c : Circuit) :
    (c.numbering .referenced).qubits.toBitIndex =
      BitIndex.ofList (c.references.filterMap Sum.getLeft?) ∧
    (c.numbering .referenced).clbits.toBitIndex =
      BitIndex.ofList (c.references.filterMap Sum.getRight?) := by
  rw [numbering_referenced, Numbering.toBitIndex_ofList, Numbering.toBitIndex_ofList, references,
    List.filterMap_flatMap, List.filterMap_flatMap]
  simp [Function.comp_def]

theorem Circuit.bits_referenced (c : Circuit) :
    (c.numbering .referenced).qubits.bits = (c.references.filterMap Sum.getLeft?).eraseDups ∧
    (c.numbering .referenced).clbits.bits = (c.references.filterMap Sum.getRight?).eraseDups := by
  obtain ⟨hqubits, hclbits⟩ := c.toBitIndex_referenced
  rw [hqubits, hclbits]
  exact ⟨(BitIndex.refines_ofList _).order, (BitIndex.refines_ofList _).order⟩

/-- An insertion keeps the map and the order of an index inverse, and the index does the work of a plain
list of bits. Inserted bits are numbered from zero in the order of their first insertion, each by the
number that its insertion gave out, and no later insertion changes it. So the declared bits of a
circuit, and no others, are numbered register by register, and the bits that its operations refer to in
the order of the first reference. -/
theorem bits_are_numbered_in_order :
    (∀ (kind : BitKind) (n : BitIndex kind) (b : Bit kind), n.IsInverse →
      (n.assign b).2.IsInverse ∧ (n.assign b).2.get? b = some (n.assign b).1) ∧
    (∀ (kind : BitKind) (inserted : List (Bit kind)),
      (BitIndex.ofList inserted).bits = inserted.eraseDups ∧
      (BitIndex.ofList inserted).IsInverse ∧
      (BitIndex.ofList inserted).Refines inserted.eraseDups ∧
      (∀ b later, (BitIndex.ofList (inserted ++ b :: later)).get? b =
        some ((BitIndex.ofList inserted).assign b).1) ∧
      ∀ later b i, (BitIndex.ofList inserted).get? b = some i →
        (BitIndex.ofList (inserted ++ later)).get? b = some i) ∧
    (∀ c : Circuit, c.DistinctNames →
      (∀ q k, (c.numbering .declared).qubits.get? q = some k ↔ Register.Places c.qregs q k) ∧
      ∀ b k, (c.numbering .declared).clbits.get? b = some k ↔ Register.Places c.cregs b k) ∧
    ∀ c : Circuit,
      (c.numbering .declared).qubits.toBitIndex = BitIndex.ofList (c.qregs.flatMap Register.bits) ∧
      (c.numbering .declared).clbits.toBitIndex = BitIndex.ofList (c.cregs.flatMap Register.bits) ∧
      (c.numbering .referenced).qubits.toBitIndex =
        BitIndex.ofList (c.references.filterMap Sum.getLeft?) ∧
      (c.numbering .referenced).clbits.toBitIndex =
        BitIndex.ofList (c.references.filterMap Sum.getRight?) ∧
      (c.numbering .referenced).qubits.bits = (c.references.filterMap Sum.getLeft?).eraseDups ∧
      (c.numbering .referenced).clbits.bits = (c.references.filterMap Sum.getRight?).eraseDups := by
  refine ⟨?_, ?_, ?_, ?_⟩
  · exact fun kind n b hn => ⟨hn.assign b, BitIndex.get?_assign_self b⟩
  · intro kind inserted
    have hrefines := BitIndex.refines_ofList inserted
    exact ⟨hrefines.order, BitIndex.isInverse_ofList inserted, hrefines,
      fun b later => BitIndex.get?_ofList_cons inserted later b,
      fun later b i => BitIndex.get?_ofList_append later⟩
  · intro c hnames
    exact ⟨fun q k => Numbering.get?_declared_iff hnames.quantum,
      fun b k => Numbering.get?_declared_iff hnames.classical⟩
  · intro c
    obtain ⟨hqubits, hclbits⟩ := c.toBitIndex_referenced
    obtain ⟨hqbits, hcbits⟩ := c.bits_referenced
    exact ⟨Numbering.toBitIndex_ofList _, Numbering.toBitIndex_ofList _, hqubits, hclbits, hqbits,
      hcbits⟩

/-- The second register is used before the first, and a condition comes before what it guards. -/
def lateRegisters : Circuit where
  name := "late"
  qregs := [⟨"a", 2⟩, ⟨"b", 2⟩]
  cregs := [⟨"c", 3⟩, ⟨"spare", 3⟩]
  operations :=
    [.gate (.fixed .h) [⟨"b", 1⟩],
      .forLoop (.upTo 2) none [.gate (.fixed .cx) [⟨"b", 1⟩, ⟨"a", 0⟩]],
      .ifElse ⟨.bit ⟨"c", 1⟩, 1⟩ [.measure [⟨"a", 0⟩] [⟨"c", 0⟩]] none,
      .whileLoop ⟨.register "c", 2⟩ []]

theorem bits_are_numbered_in_order_lateRegisters :
    lateRegisters.DistinctNames ∧
    (lateRegisters.numbering .declared).qubits.get? ⟨"b", 0⟩ = some 2 ∧
    (lateRegisters.numbering .declared).clbits.get? ⟨"spare", 2⟩ = some 5 ∧
    (lateRegisters.numbering .referenced).qubits.bits = [⟨"b", 1⟩, ⟨"a", 0⟩] ∧
    (lateRegisters.numbering .referenced).clbits.bits = [⟨"c", 1⟩, ⟨"c", 0⟩, ⟨"c", 2⟩] := by
  have hnames : lateRegisters.DistinctNames := ⟨by decide +kernel, by decide +kernel⟩
  obtain ⟨-, -, hdeclared, hreferenced⟩ := bits_are_numbered_in_order
  obtain ⟨hqubits, hclbits⟩ := hdeclared lateRegisters hnames
  obtain ⟨-, -, -, -, hqubits', hclbits'⟩ := hreferenced lateRegisters
  refine ⟨hnames, ?_, ?_, hqubits'.trans (by decide +kernel), hclbits'.trans (by decide +kernel)⟩
  · exact (hqubits _ _).2 ⟨[⟨"a", 2⟩], ⟨"b", 2⟩, [], rfl, rfl, by decide, rfl⟩
  · exact (hclbits _ _).2 ⟨[⟨"c", 3⟩], ⟨"spare", 3⟩, [], rfl, rfl, by decide, rfl⟩

end CircuitCalls
