/-!
# Finite maps

A table looks values up by key. Inserting a value for a key hides an older value for it and changes no
other (`Table.get?_insert`).
-/

namespace CircuitCalls

/-- A finite map, with the entries that were put in last first. -/
structure Table (α β : Type) where
  entries : List (α × β)
deriving DecidableEq

namespace Table

variable {α β : Type} [DecidableEq α]

def empty : Table α β := ⟨[]⟩

def get? (t : Table α β) (key : α) : Option β := t.entries.lookup key

def insert (t : Table α β) (key : α) (value : β) : Table α β := ⟨(key, value) :: t.entries⟩

@[simp]
theorem get?_empty (key : α) : (empty : Table α β).get? key = none := rfl

theorem get?_insert (t : Table α β) (key : α) (value : β) (other : α) :
    (t.insert key value).get? other = if other = key then some value else t.get? other := by
  unfold get? insert
  rw [List.lookup_cons]
  by_cases h : other = key
  · simp [h]
  · have hkey : (other == key) = false := beq_false_of_ne h
    simp [h, hkey]

theorem mem_of_get? {t : Table α β} {key : α} {value : β} (h : t.get? key = some value) :
    (key, value) ∈ t.entries := by
  obtain ⟨before, after, hentries, -⟩ := List.lookup_eq_some_iff.1 h
  simp [hentries]

end Table

end CircuitCalls
