import CircuitCalls.Proofs.Numbering

/-!
# Registers of different names

In a circuit whose registers of a kind have different names every declared bit belongs to one register
only. Numbered by declaration, the bits of a register then follow those of the registers before it
(`place_declared`), and as many bits are numbered as are declared (`size_declared`).
-/

namespace CircuitCalls

variable {kind : BitKind}

theorem findRegister?_eq_none_iff {name : String} {rs : List (Register kind)} :
    findRegister? name rs = none ↔ name ∉ rs.map (·.name) := by
  simp [findRegister?]

/-- The registers of each kind have different names. -/
structure Circuit.DistinctNames (c : Circuit) : Prop where
  quantum : (c.qregs.map (·.name)).Nodup
  classical : (c.cregs.map (·.name)).Nodup

namespace Register

def total (rs : List (Register kind)) : Nat := rs.foldl (fun count r => count + r.size.toNat) 0

theorem foldl_size (rs : List (Register kind)) (count : Nat) :
    rs.foldl (fun count r => count + r.size.toNat) count = count + total rs := by
  induction rs generalizing count with
  | nil => rfl
  | cons r rest ih =>
    rw [total, List.foldl_cons, List.foldl_cons, ih, ih, Nat.zero_add, Nat.add_assoc]

theorem total_cons (r : Register kind) (rest : List (Register kind)) :
    total (r :: rest) = r.size.toNat + total rest := by
  rw [total, List.foldl_cons, foldl_size, Nat.zero_add]

/-- A register of a new name at the end leaves all names different. -/
theorem nodup_names_append {rs : List (Register kind)} {r : Register kind}
    (hnames : (rs.map (·.name)).Nodup) (hnew : findRegister? r.name rs = none) :
    ((rs ++ [r]).map (·.name)).Nodup := by
  rw [List.map_append]
  refine List.nodup_append.2 ⟨hnames, by simp, ?_⟩
  rintro a ha b hb rfl
  rw [List.map_singleton, List.mem_singleton] at hb
  exact findRegister?_eq_none_iff.1 hnew (hb ▸ ha)

theorem length_bits (r : Register kind) : r.bits.length = r.size.toNat := by
  simp [bits]

theorem bit?_of_lt {r : Register kind} {i : UInt32} (h : i < r.size) : r.bit? i = some ⟨r.name, i⟩ :=
  if_pos h

/-- A register has its bits in order, and no others. -/
theorem getElem?_bits (r : Register kind) (i : UInt32) : r.bits[i.toNat]? = r.bit? i := by
  by_cases h : i < r.size
  · rw [bit?_of_lt h]
    simp [bits, UInt32.lt_iff_toNat_lt.1 h]
  · rw [bit?, if_neg h, List.getElem?_eq_none_iff, length_bits]
    exact UInt32.le_iff_toNat_le.1 (UInt32.not_lt.1 h)

theorem nodup_bits (r : Register kind) : r.bits.Nodup := by
  refine List.nodup_range.map_on ?_
  intro i hi j hj h
  have hi' := Nat.lt_trans (List.mem_range.1 hi) r.size.toNat_lt_size
  have hj' := Nat.lt_trans (List.mem_range.1 hj) r.size.toNat_lt_size
  have hij := congrArg UInt32.toNat (Bit.mk.inj h).2
  rwa [UInt32.toNat_ofNat_of_lt' hi', UInt32.toNat_ofNat_of_lt' hj'] at hij

theorem register_of_mem_bits {r : Register kind} {b : Bit kind} (h : b ∈ r.bits) :
    b.register = r.name := by
  obtain ⟨i, -, rfl⟩ := List.mem_map.1 h
  rfl

theorem length_flatMap_bits (rs : List (Register kind)) : (rs.flatMap bits).length = total rs := by
  induction rs with
  | nil => rfl
  | cons r rest ih => rw [List.flatMap_cons, List.length_append, ih, length_bits, total_cons]

/-- Registers of different names share no bits. -/
theorem nodup_flatMap_bits {rs : List (Register kind)} (h : (rs.map (·.name)).Nodup) :
    (rs.flatMap bits).Nodup := by
  induction rs with
  | nil => exact List.nodup_nil
  | cons r rest ih =>
    obtain ⟨hr, hrest⟩ := List.nodup_cons.1 h
    rw [List.flatMap_cons]
    refine List.nodup_append.2 ⟨r.nodup_bits, ih hrest, ?_⟩
    rintro b hb b' hb' rfl
    -- a bit in both would give a later register the name of this one
    obtain ⟨r', hr', hmem⟩ := List.mem_flatMap.1 hb'
    refine hr (List.mem_map.2 ⟨r', hr', ?_⟩)
    rw [← register_of_mem_bits hmem, register_of_mem_bits hb]

theorem getElem?_flatMap_bits (before after : List (Register kind)) {r : Register kind} {i : UInt32}
    (h : i < r.size) :
    ((before ++ r :: after).flatMap bits)[total before + i.toNat]? = some ⟨r.name, i⟩ := by
  have hlt : i.toNat < r.bits.length := by
    rw [length_bits]
    exact UInt32.lt_iff_toNat_lt.1 h
  rw [List.flatMap_append, List.flatMap_cons, ← length_flatMap_bits before,
    List.getElem?_append_right (Nat.le_add_right _ _), Nat.add_sub_cancel_left,
    List.getElem?_append_left hlt, getElem?_bits, bit?_of_lt h]

end Register

namespace Numbering

/-- Bits that are all different keep their places. -/
theorem bits_foldl_insert {bits : List (Bit kind)} {n : Numbering kind}
    (h : (n.bits ++ bits).Nodup) : (bits.foldl insert n).bits = n.bits ++ bits := by
  induction bits generalizing n with
  | nil => simp
  | cons b rest ih =>
    have hb : b ∉ n.bits := by
      intro hb
      exact (List.nodup_append.1 h).2.2 b hb b List.mem_cons_self rfl
    have hinsert : (n.insert b).bits = n.bits ++ [b] := by rw [bits_insert, if_neg hb]
    have h' : ((n.insert b).bits ++ rest).Nodup := by
      rw [hinsert, List.append_assoc]
      exact h
    rw [List.foldl_cons, ih h', hinsert, List.append_assoc]
    rfl

theorem bits_ofList {bits : List (Bit kind)} (h : bits.Nodup) : (ofList bits).bits = bits :=
  bits_foldl_insert (n := empty) h

variable {rs : List (Register kind)}

theorem size_declared (h : (rs.map (·.name)).Nodup) :
    (ofList (rs.flatMap Register.bits)).size = Register.total rs := by
  rw [BitIndex.size, bits_ofList (Register.nodup_flatMap_bits h), Register.length_flatMap_bits]

/-- A bit is numbered by its index behind all bits of the registers before its own. -/
theorem place_declared {before after : List (Register kind)} {r : Register kind} {i : UInt32}
    (hnames : (rs.map (·.name)).Nodup) (hrs : rs = before ++ r :: after) (hi : i < r.size) :
    (ofList (rs.flatMap Register.bits)).get? ⟨r.name, i⟩ =
      some (Register.total before + i.toNat) := by
  have hat : (ofList (rs.flatMap Register.bits)).bits[Register.total before + i.toNat]? =
      some ⟨r.name, i⟩ := by
    rw [bits_ofList (Register.nodup_flatMap_bits hnames), hrs]
    exact Register.getElem?_flatMap_bits before after hi
  exact get?_eq_some_iff.2 hat

end Numbering

end CircuitCalls
