import CircuitCalls.Proofs.Operation
import Mathlib.Data.List.Nodup

/-!
# Numbers and bits

In a numbering the map and the order are inverse, so that numbers and bits determine one another.
`place` is the number of a bit as a total function; it is one-to-one on the numbered bits. Which bits a
circuit numbers is said by its registers, or by its operations at every depth.
-/

namespace CircuitCalls

namespace Numbering

variable {kind : BitKind} {n : Numbering kind} {a b : Bit kind} {i : Nat}

theorem get?_eq_some_iff : n.get? b = some i ↔ n.bits[i]? = some b := n.isInverse b i

theorem get?_eq_none_iff : n.get? b = none ↔ b ∉ n.bits := by
  rw [Option.eq_none_iff_forall_ne_some, List.mem_iff_getElem?, not_exists]
  exact forall_congr' fun i => not_congr get?_eq_some_iff

/-- Two places with one bit are the number of that bit. -/
theorem nodup_bits (n : Numbering kind) : n.bits.Nodup := by
  refine List.nodup_iff_getElem?_ne_getElem?.2 ?_
  intro i j hij hj heq
  obtain ⟨b, hb⟩ : ∃ b, n.bits[j]? = some b := ⟨_, List.getElem?_eq_getElem hj⟩
  have hi := get?_eq_some_iff.2 (heq.trans hb)
  rw [get?_eq_some_iff.2 hb] at hi
  exact Nat.ne_of_gt hij (Option.some.inj hi)

/-- The number of a bit; a bit that has none gets the first number that is free. -/
def place (n : Numbering kind) (b : Bit kind) : Nat := (n.get? b).getD n.size

theorem get?_eq_place (h : b ∈ n.bits) : n.get? b = some (n.place b) := by
  cases hb : n.get? b with
  | none => exact absurd h (get?_eq_none_iff.1 hb)
  | some i => simp [place, hb]

theorem getElem?_place (h : b ∈ n.bits) : n.bits[n.place b]? = some b :=
  get?_eq_some_iff.1 (get?_eq_place h)

theorem place_inj (ha : a ∈ n.bits) (hb : b ∈ n.bits) (h : n.place a = n.place b) : a = b := by
  have ea := getElem?_place ha
  rw [h, getElem?_place hb] at ea
  exact (Option.some.inj ea).symm

theorem place_of_getElem? (h : n.bits[i]? = some b) : n.place b = i := by
  rw [place, get?_eq_some_iff.2 h, Option.getD_some]

/-! ## Numberings of lists -/

theorem bits_insert (n : Numbering kind) (b : Bit kind) :
    (n.insert b).bits = if b ∈ n.bits then n.bits else n.bits ++ [b] := by
  change (n.toBitIndex.assign b).2.bits = _
  unfold BitIndex.assign
  by_cases hb : b ∈ n.bits
  · rw [get?_eq_place hb, if_pos hb]
  · rw [get?_eq_none_iff.2 hb, if_neg hb]

theorem mem_insert : a ∈ (n.insert b).bits ↔ a ∈ n.bits ∨ a = b := by
  rw [bits_insert]
  split
  · rename_i hb
    exact ⟨Or.inl, fun h => h.elim id (fun e => e ▸ hb)⟩
  · simp

theorem mem_foldl_insert {bits : List (Bit kind)} :
    a ∈ (bits.foldl insert n).bits ↔ a ∈ n.bits ∨ a ∈ bits := by
  induction bits generalizing n with
  | nil => simp
  | cons b rest ih => rw [List.foldl_cons, ih, mem_insert, List.mem_cons, or_assoc]

theorem mem_ofList {bits : List (Bit kind)} : a ∈ (ofList bits).bits ↔ a ∈ bits := by
  rw [ofList, mem_foldl_insert]
  simp [empty, BitIndex.empty]

end Numbering

/-! ## Numberings of circuits -/

theorem Register.mem_bits {kind : BitKind} {r : Register kind} {b : Bit kind} :
    b ∈ r.bits ↔ r.contains b = true := by
  simp only [bits, contains, List.mem_map, List.mem_range, Bool.and_eq_true, beq_iff_eq,
    decide_eq_true_eq]
  constructor
  · rintro ⟨i, hi, rfl⟩
    refine ⟨rfl, UInt32.lt_iff_toNat_lt.2 ?_⟩
    rw [UInt32.toNat_ofNat_of_lt' (Nat.lt_trans hi r.size.toNat_lt_size)]
    exact hi
  · rintro ⟨hname, hlt⟩
    refine ⟨b.index.toNat, UInt32.lt_iff_toNat_lt.1 hlt, ?_⟩
    rw [UInt32.ofNat_toNat, ← hname]

def Circuit.usedClbits (c : Circuit) (op : Operation) : List Clbit :=
  op.clbits ++ (op.condition?.map c.conditionBits).getD []

namespace CircuitNumbering

/-- A scan visits the operations in document order, whatever has been numbered before. -/
theorem scan_eq_and_all (c : Circuit) :
    (∀ op n, scan c n op = (Operation.nodes op).foldl (visit c) n) ∧
    ∀ ops n, scanAll c n ops = (Operation.nodesAll ops).foldl (visit c) n := by
  apply Operation.induction
  case gate => intros; rfl
  case measure => intros; rfl
  case directive => intros; rfl
  case ifThen =>
    intro condition thenBody ih n
    simp [scan, Operation.nodes, ih]
  case ifElse =>
    intro condition thenBody elseBody ihThen ihElse n
    simp [scan, Operation.nodes, ihThen, ihElse]
  case whileLoop =>
    intro condition body ih n
    simp [scan, Operation.nodes, ih]
  case forLoop =>
    intro iteration loopVar body ih n
    simp [scan, Operation.nodes, ih]
  case nil => intros; rfl
  case cons =>
    intro op rest ihOp ihRest n
    simp [scanAll, Operation.nodesAll, ihOp, ihRest]

theorem visit_eq (c : Circuit) (n : CircuitNumbering) (op : Operation) :
    n.visit c op =
      ⟨op.qubits.foldl .insert n.qubits, (c.usedClbits op).foldl .insert n.clbits⟩ := by
  rw [visit, Circuit.usedClbits, List.foldl_append]
  cases op.condition? <;> rfl

theorem foldl_visit (c : Circuit) (ops : List Operation) (n : CircuitNumbering) :
    ops.foldl (visit c) n =
      ⟨(ops.flatMap Operation.qubits).foldl .insert n.qubits,
        (ops.flatMap c.usedClbits).foldl .insert n.clbits⟩ := by
  induction ops generalizing n with
  | nil => rfl
  | cons op rest ih =>
    rw [List.foldl_cons, ih, visit_eq, List.flatMap_cons, List.flatMap_cons, List.foldl_append,
      List.foldl_append]

end CircuitNumbering

namespace Circuit

/-- By reference, bits are numbered as if those of all operations stood in one list. -/
theorem numbering_referenced (c : Circuit) :
    c.numbering .referenced =
      ⟨.ofList (c.nodes.flatMap Operation.qubits), .ofList (c.nodes.flatMap c.usedClbits)⟩ := by
  rw [numbering, (CircuitNumbering.scan_eq_and_all c).2, CircuitNumbering.foldl_visit]
  rfl

theorem mem_declared_qubits {c : Circuit} {q : Qubit} :
    q ∈ (c.numbering .declared).qubits.bits ↔ c.hasQubit q = true := by
  simp only [numbering, Numbering.mem_ofList, List.mem_flatMap, hasQubit, List.any_eq_true,
    Register.mem_bits]

theorem mem_declared_clbits {c : Circuit} {b : Clbit} :
    b ∈ (c.numbering .declared).clbits.bits ↔ c.hasClbit b = true := by
  simp only [numbering, Numbering.mem_ofList, List.mem_flatMap, hasClbit, List.any_eq_true,
    Register.mem_bits]

theorem mem_referenced_qubits {c : Circuit} {q : Qubit} :
    q ∈ (c.numbering .referenced).qubits.bits ↔ ∃ op ∈ c.nodes, q ∈ op.qubits := by
  rw [numbering_referenced, Numbering.mem_ofList, List.mem_flatMap]

theorem mem_referenced_clbits {c : Circuit} {b : Clbit} :
    b ∈ (c.numbering .referenced).clbits.bits ↔ ∃ op ∈ c.nodes, b ∈ c.usedClbits op := by
  rw [numbering_referenced, Numbering.mem_ofList, List.mem_flatMap]

end Circuit

end CircuitCalls
