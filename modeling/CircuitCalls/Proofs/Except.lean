import Mathlib.Data.List.Forall2

/-!
# Results of checked computations

How a sequence of checked steps, or a check of every item of a list, comes to succeed or to fail.
-/

namespace CircuitCalls

variable {ε α β : Type}

theorem bind_eq_ok_iff {x : Except ε α} {f : α → Except ε β} {b : β} :
    (x >>= f) = .ok b ↔ ∃ a, x = .ok a ∧ f a = .ok b := by
  cases x with
  | error e => simp [bind, Except.bind]
  | ok a => simp [bind, Except.bind]

theorem bind_eq_error_iff {x : Except ε α} {f : α → Except ε β} {e : ε} :
    (x >>= f) = .error e ↔ x = .error e ∨ ∃ a, x = .ok a ∧ f a = .error e := by
  cases x with
  | error e => simp [bind, Except.bind]
  | ok a => simp [bind, Except.bind]

@[simp] theorem ok_bind (a : α) (f : α → Except ε β) : ((.ok a : Except ε α) >>= f) = f a := rfl

@[simp] theorem error_bind (e : ε) (f : α → Except ε β) :
    ((.error e : Except ε α) >>= f) = .error e := rfl

@[simp] theorem pure_eq_ok (a : α) : (pure a : Except ε α) = .ok a := rfl

@[simp] theorem throw_eq_error (e : ε) : (throw e : Except ε α) = .error e := rfl

@[simp] theorem bind_ok_unit (x : Except ε Unit) : (x >>= fun _ => .ok ()) = x := by
  cases x <;> rfl

/-- A check followed by more. -/
theorem seq_eq_ok_iff {x : Except ε Unit} {y : Except ε β} {b : β} :
    (x >>= fun _ => y) = .ok b ↔ x = .ok () ∧ y = .ok b := by
  cases x <;> simp

theorem map_unit_eq_bind (x : Except ε α) : (fun _ => ()) <$> x = x >>= fun _ => .ok () := by
  cases x <;> rfl

theorem isSome_toOption_iff {x : Except ε α} : x.toOption.isSome = true ↔ ∃ a, x = .ok a := by
  cases x <;> simp [Except.toOption]

theorem exists_right_of_forall₂ {R : α → β → Prop} {as : List α} {bs : List β}
    (h : List.Forall₂ R as bs) {a : α} (ha : a ∈ as) : ∃ b ∈ bs, R a b := by
  induction h with
  | nil => cases ha
  | @cons x b as bs hxb _ ih =>
    rcases List.mem_cons.1 ha with rfl | ha
    · exact ⟨b, List.mem_cons_self, hxb⟩
    · obtain ⟨b', hb', hab'⟩ := ih ha
      exact ⟨b', List.mem_cons_of_mem b hb', hab'⟩

theorem mapM_eq_ok_iff {f : α → Except ε β} {xs : List α} {ys : List β} :
    xs.mapM f = .ok ys ↔ List.Forall₂ (fun x y => f x = .ok y) xs ys := by
  induction xs generalizing ys with
  | nil => cases ys <;> simp
  | cons x rest ih =>
    rw [List.mapM_cons, bind_eq_ok_iff, List.forall₂_cons_left_iff]
    constructor
    · rintro ⟨y, hy, h⟩
      obtain ⟨ys', hys, h⟩ := bind_eq_ok_iff.1 h
      cases h
      exact ⟨y, ys', hy, ih.1 hys, rfl⟩
    · rintro ⟨y, ys', hy, hys, rfl⟩
      exact ⟨y, hy, bind_eq_ok_iff.2 ⟨ys', ih.2 hys, rfl⟩⟩

/-- A list fails with the error of its first item that fails. -/
theorem mapM_eq_error_iff {f : α → Except ε β} {xs : List α} {e : ε} :
    xs.mapM f = .error e ↔
      ∃ before x after, xs = before ++ x :: after ∧ (∀ y ∈ before, ∃ z, f y = .ok z) ∧
        f x = .error e := by
  induction xs with
  | nil => simp
  | cons x rest ih =>
    rw [List.mapM_cons, bind_eq_error_iff]
    constructor
    · rintro (hx | ⟨y, hy, h⟩)
      · exact ⟨[], x, rest, rfl, by simp, hx⟩
      · rcases bind_eq_error_iff.1 h with h | ⟨ys, _, h⟩
        · obtain ⟨before, z, after, rfl, hb, hz⟩ := ih.1 h
          refine ⟨x :: before, z, after, rfl, ?_, hz⟩
          intro w hw
          rcases List.mem_cons.1 hw with rfl | hw
          · exact ⟨y, hy⟩
          · exact hb w hw
        · cases h
    · rintro ⟨before, z, after, hxs, hb, hz⟩
      cases before with
      | nil =>
        obtain ⟨rfl, rfl⟩ := List.cons.inj hxs
        exact Or.inl hz
      | cons w before =>
        obtain ⟨rfl, rfl⟩ := List.cons.inj hxs
        obtain ⟨y, hy⟩ := hb x (by simp)
        have hrest : (before ++ z :: after).mapM f = .error e :=
          ih.2 ⟨before, z, after, rfl, fun v hv => hb v (by simp [hv]), hz⟩
        exact Or.inr ⟨y, hy, bind_eq_error_iff.2 (Or.inl hrest)⟩

theorem forM_eq_ok_iff {f : α → Except ε Unit} {xs : List α} :
    forM xs f = .ok () ↔ ∀ x ∈ xs, f x = .ok () := by
  induction xs with
  | nil => simp
  | cons x rest ih =>
    rw [List.forM_cons, bind_eq_ok_iff, List.forall_mem_cons]
    constructor
    · rintro ⟨⟨⟩, hx, hrest⟩
      exact ⟨hx, ih.1 hrest⟩
    · rintro ⟨hx, hrest⟩
      exact ⟨(), hx, ih.2 hrest⟩

/-- Only the items up to the first failure are looked at. -/
theorem forM_eq_error_iff {f : α → Except ε Unit} {xs : List α} {e : ε} :
    forM xs f = .error e ↔
      ∃ before x after, xs = before ++ x :: after ∧ (∀ y ∈ before, f y = .ok ()) ∧ f x = .error e := by
  constructor
  · intro h
    induction xs with
    | nil => cases h
    | cons x rest ih =>
      rw [List.forM_cons, bind_eq_error_iff] at h
      rcases h with hx | ⟨⟨⟩, hx, hrest⟩
      · exact ⟨[], x, rest, rfl, by simp, hx⟩
      · obtain ⟨before, z, after, rfl, hb, hz⟩ := ih hrest
        refine ⟨x :: before, z, after, rfl, ?_, hz⟩
        exact List.forall_mem_cons.2 ⟨hx, hb⟩
  · rintro ⟨before, x, after, rfl, hbefore, hx⟩
    rw [List.forM_append, forM_eq_ok_iff.2 hbefore, ok_bind, List.forM_cons, hx, error_bind]

/-- What every step that succeeds keeps is kept by all of them. -/
theorem foldlM_ok_invariant {P : β → Prop} {f : β → α → Except ε β} {xs : List α} {b b' : β}
    (step : ∀ x ∈ xs, ∀ a a', f a x = .ok a' → P a → P a') (h : xs.foldlM f b = .ok b')
    (hb : P b) : P b' := by
  induction xs generalizing b with
  | nil =>
    cases h
    exact hb
  | cons x rest ih =>
    rw [List.foldlM_cons] at h
    obtain ⟨a, ha, hrest⟩ := bind_eq_ok_iff.1 h
    have hstep := step x List.mem_cons_self b a ha hb
    exact ih (fun y hy => step y (List.mem_cons_of_mem x hy)) hrest hstep

end CircuitCalls
