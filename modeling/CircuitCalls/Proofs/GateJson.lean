import CircuitCalls.Gate.Json
import CircuitCalls.Proofs.JsonReading

/-!
# Gates read back from JSON

The JSON form of a parameter or a gate, taken as its text holds it, reads as the same parameter or
gate, unless one of its constants is an infinity or NaN: the text has `null` there, and then nothing
is read (`Gate.ofJson?_asWritten`). The constants of the parts of a value add up to those of the
value, so that each statement is put together from those about its parts.
-/

namespace CircuitCalls

open Json

/-! ## Values with constants -/

/-- The value, unless one of its constants is no number. -/
def ifFinite {α : Type} (constants : List Float) (a : α) : Option α :=
  if constants.all Float.isFinite then some a else none

section

variable {α β : Type} {constants : List Float} {a : α}

@[simp] theorem ifFinite_nil : ifFinite [] a = some a := rfl

@[simp] theorem map_ifFinite (f : α → β) :
    (ifFinite constants a).map f = ifFinite constants (f a) := by
  unfold ifFinite
  split <;> rfl

@[simp] theorem bind_ifFinite_some (f : α → β) :
    ((ifFinite constants a).bind fun a => some (f a)) = ifFinite constants (f a) := by
  rw [← map_ifFinite, Option.map_eq_bind]
  rfl

theorem bind_ifFinite {f : α → Option β} {more : List Float} {b : β} (h : f a = ifFinite more b) :
    (ifFinite constants a).bind f = ifFinite (constants ++ more) b := by
  unfold ifFinite at *
  rw [List.all_append]
  cases constants.all Float.isFinite with
  | true => exact h
  | false => rfl

theorem ifFinite_of_finite (h : ∀ x ∈ constants, x.isFinite = true) :
    ifFinite constants a = some a :=
  if_pos (List.all_eq_true.2 h)

theorem ifFinite_of_not_finite (h : ∃ x ∈ constants, x.isFinite = false) :
    ifFinite constants a = none := by
  apply if_neg
  simpa using h

theorem mapM_ifFinite {f : α → Json} {read : Json → Option α} {constants : α → List Float}
    {xs : List α} (h : ∀ x ∈ xs, read (f x) = ifFinite (constants x) x) :
    (xs.map f).mapM read = ifFinite (xs.flatMap constants) xs := by
  induction xs with
  | nil => rfl
  | cons x xs ih =>
    obtain ⟨hx, hxs⟩ := List.forall_mem_cons.1 h
    rw [List.map_cons, List.mapM_cons, hx, ih hxs, List.flatMap_cons]
    exact bind_ifFinite (bind_ifFinite_some (x :: ·))

end

/-! ## Parameters -/

namespace Parameter

def constants : Parameter → List Float
  | constant v => [v]
  | symbol _ => []
  | pi => []
  | neg e => e.constants
  | binary _ a b => a.constants ++ b.constants

theorem ofJson?_asWritten (strictness : Strictness) (e : Parameter) :
    ofJson? strictness e.toJson.asWritten = ifFinite e.constants e := by
  induction e with
  | constant v =>
    cases h : v.isFinite <;>
      simp [toJson, constants, ifFinite, h, asWritten, asWrittenFields, ofJson?, asFloat?]
  | symbol name => rfl
  | pi => rfl
  | neg e ih =>
    -- The operand is no array, so the form is not that of a binary operator.
    have hshape : ∀ a b, e.toJson.asWritten = .arr [a, b] → False := by
      cases e <;> simp [toJson, asWritten]
    simp [toJson, constants, asWritten, asWrittenFields, ofJson?, ih]
  | binary op a b iha ihb =>
    have htag : Arithmetic.ofTag? op.tag = some op := by cases op <;> rfl
    simp only [toJson, constants, asWritten, asWrittenFields, asWrittenItems, ofJson?, htag, iha, ihb]
    exact bind_ifFinite (bind_ifFinite_some _)

theorem legible {e : Parameter} (h : ∀ x ∈ e.constants, Faithful x) : e.toJson.Legible := by
  induction e with
  | constant v =>
    have hv : (float v).Legible := .float (h v List.mem_cons_self)
    simp [toJson, hv]
  | symbol name => simp [toJson]
  | pi => simp [toJson]
  | neg e ih => simp [toJson, ih h]
  | binary op a b iha ihb =>
    obtain ⟨ha, hb⟩ := List.forall_mem_append.1 h
    simp [toJson, iha ha, ihb hb]

theorem legible_all {es : List Parameter} (h : ∀ x ∈ es.flatMap constants, Faithful x) :
    ∀ e ∈ es, e.toJson.Legible :=
  fun e he => legible fun x hx => h x (List.mem_flatMap.2 ⟨e, he, hx⟩)

end Parameter

/-! ## Gates -/

namespace StandardGate

theorem ofJson?_asWritten (strictness : Strictness) (g : StandardGate) :
    ofJson? strictness g.toJson.asWritten =
      ifFinite (g.parameters.flatMap Parameter.constants) g := by
  cases g with
  | fixed g => cases g <;> rfl
  | rotation g angle =>
    have hfixed : FixedGate.ofTag? g.tag = none := by cases g <;> rfl
    have htag : Rotation.ofTag? g.tag = some g := by cases g <;> rfl
    simp [toJson, ofJson?, variant?_asWritten, hfixed, htag, parameters, Parameter.ofJson?_asWritten]
  | u theta phi lambda =>
    have hread : ofJson? strictness (u theta phi lambda).toJson.asWritten =
        (Parameter.ofJson? strictness theta.toJson.asWritten).bind fun theta =>
          (Parameter.ofJson? strictness phi.toJson.asWritten).bind fun phi =>
            (Parameter.ofJson? strictness lambda.toJson.asWritten).bind fun lambda =>
              some (u theta phi lambda) := rfl
    simp only [hread, Parameter.ofJson?_asWritten, parameters, List.flatMap_cons, List.flatMap_nil,
      List.append_nil]
    exact bind_ifFinite (bind_ifFinite (bind_ifFinite_some _))

theorem legible {g : StandardGate} (h : ∀ x ∈ g.parameters.flatMap Parameter.constants, Faithful x) :
    g.toJson.Legible := by
  have hparameters := Parameter.legible_all h
  cases g <;> simp_all [toJson, parameters]

end StandardGate

namespace CustomGate

theorem ofJson?_asWritten (strictness : Strictness) (g : CustomGate) :
    ofJson? strictness g.toJson.asWritten =
      ifFinite (g.parameters.flatMap Parameter.constants) g := by
  have hparameters : (Json.ofList (fun e => e.toJson.asWritten) g.parameters).asList?
      (Parameter.ofJson? strictness) = ifFinite (g.parameters.flatMap Parameter.constants) g.parameters :=
    mapM_ifFinite fun e _ => Parameter.ofJson?_asWritten strictness e
  simp [toJson, ofJson?, fields?, lookup?, asWritten, asWrittenFields, withDefault?, hparameters]

theorem legible {g : CustomGate} (h : ∀ x ∈ g.parameters.flatMap Parameter.constants, Faithful x) :
    g.toJson.Legible := by
  simp [toJson, legible_ofList (Parameter.legible_all h)]

end CustomGate

namespace Gate

def constants (g : Gate) : List Float := g.parameters.flatMap Parameter.constants

theorem fields?_kind (kind : Json) (label : Option String) :
    (obj (("kind", kind) :: field? "label" .str label)).asWritten.fields? ["kind", "label"] =
      some [some kind.asWritten, label.map str] := by
  cases label <;> simp [field?, fields?, lookup?, asWritten, asWrittenFields]

theorem fields?_control (name controls base : Json) (mask : Option UInt64) :
    (obj ([("name", name), ("num_ctrl_qubits", controls)] ++
        field? "ctrl_state" (fun mask : UInt64 => .nat mask.toNat) mask ++
        [("base_gate", base)])).asWritten.fields?
        ["name", "num_ctrl_qubits", "ctrl_state", "base_gate"] =
      some [some name.asWritten, some controls.asWritten, mask.map fun mask => nat mask.toNat,
        some base.asWritten] := by
  cases mask <;> simp [field?, fields?, lookup?, asWritten, asWrittenFields]

theorem optional?_label (label : Option String) : optional? asString? (label.map str) = some label :=
  optional?_map asString?_str (fun _ h => by cases h) label

theorem optional?_mask (mask : Option UInt64) :
    optional? asUInt64? (mask.map fun mask => nat mask.toNat) = some mask :=
  optional?_map asUInt64?_nat (fun _ h => by cases h) mask

/-- A gate reads back through all its controls, as long as the bound on the depth leaves room for them. -/
theorem ofJsonWithin?_asWritten {strictness : Strictness} (g : Gate) {depth : Nat}
    (h : g.toJson.depth ≤ depth) :
    ofJsonWithin? strictness (depth + 1) g.toJson.asWritten = ifFinite g.constants g := by
  -- In each case the tag becomes a variable, so that no step evaluates the tests on it.
  induction g generalizing depth with
  | standard g label =>
    obtain ⟨tag, htag⟩ : ∃ tag, "Standard" = tag := ⟨_, rfl⟩
    rw [toJson, htag, ofJsonWithin?, fields?_kind]
    simp only [optional?_label, variant?_asWritten, Option.bind_eq_bind, Option.bind_some]
    rw [if_pos htag.symm, StandardGate.ofJson?_asWritten, map_ifFinite]
    rfl
  | custom g label =>
    obtain ⟨tag, htag⟩ : ∃ tag, "Custom" = tag := ⟨_, rfl⟩
    rw [toJson, htag, ofJsonWithin?, fields?_kind]
    simp only [optional?_label, variant?_asWritten, Option.bind_eq_bind, Option.bind_some]
    rw [if_neg (htag ▸ by decide), if_pos htag.symm, CustomGate.ofJson?_asWritten, map_ifFinite]
    rfl
  | controlled name controls mask base label ih =>
    have hkind := depth_lt_of_field h List.mem_cons_self
    have hcontent := depth_lt_of_field (Nat.le_of_lt hkind) List.mem_cons_self
    have hbase := depth_lt_of_field (Nat.le_of_lt hcontent)
      (List.mem_append_right _ (List.mem_singleton_self ("base_gate", base.toJson)))
    obtain ⟨depth, rfl⟩ := Nat.exists_eq_add_one_of_ne_zero (Nat.ne_zero_of_lt hkind)
    obtain ⟨tag, htag⟩ : ∃ tag, "Controlled" = tag := ⟨_, rfl⟩
    rw [toJson, htag, ofJsonWithin?, fields?_kind]
    simp only [optional?_label, variant?_asWritten, Option.bind_eq_bind, Option.bind_some]
    rw [if_neg (htag ▸ by decide), if_neg (htag ▸ by decide), if_pos htag.symm, fields?_control]
    simp only [asWritten_str, asString?_str, asWritten_nat, asUInt32?_nat, optional?_mask,
      ih (Nat.le_of_lt_succ hbase), Option.bind_some, bind_ifFinite_some]
    rfl

theorem ofJson?_asWritten {strictness : Strictness} {g : Gate} (h : g.toJson.depth ≤ maxDepth) :
    ofJson? strictness g.toJson.asWritten = ifFinite g.constants g :=
  ofJsonWithin?_asWritten g h

theorem legible {g : Gate} (h : ∀ x ∈ g.constants, Faithful x) : g.toJson.Legible := by
  induction g with
  | standard g label => simp [toJson, StandardGate.legible h, legible_field?]
  | custom g label => simp [toJson, CustomGate.legible h, legible_field?]
  | controlled name controls mask base label ih => simp [toJson, ih h, legible_field?]

end Gate

end CircuitCalls
