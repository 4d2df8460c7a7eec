import CircuitCalls.Proofs.ExpressionTokens
import CircuitCalls.Proofs.Except
import CircuitCalls.Proofs.Simplification
import CircuitCalls.Qasm.Elaboration

/-!
# Constants as parameters

An expression has a value of its own (`Expression.value?`), and it stands for a parameter, which may
have a value too. The two agree, except that a parameter never divides by zero: it is left without a
value wherever the expression does. Remainders and powers are worked out at once, so that a division
below one of them is not part of the parameter. Symbols come from names and from nothing else.
-/

namespace CircuitCalls.Qasm

theorem piValue_mul_two : piValue * 2 = MathConstant.tau.value := by decide +kernel

namespace Expression

/-- Induction over the expressions that have a value, together with their values. -/
theorem valueInduction {P : Expression → Float → Prop}
    (int : ∀ v : Int64, P (.int v) v.toFloat)
    (float : ∀ v, P (.float v) v)
    (constant : ∀ c : MathConstant, P (.constant c) c.value)
    (neg : ∀ e v, P e v → P (.unary .neg e) (-v))
    (binary : ∀ op left right x y v, left.value? = some x → right.value? = some y →
      op.apply? x y = some v → P left x → P right y → P (.binary op left right) v)
    {e : Expression} {v : Float} (h : e.value? = some v) : P e v := by
  induction e using Expression.induction generalizing v with
  | int value =>
    cases h
    exact int value
  | float value =>
    cases h
    exact float value
  | bool value => cases h
  | constant c =>
    cases h
    exact constant c
  | name register => cases h
  | unary op operand ih =>
    cases op with
    | neg =>
      obtain ⟨w, hw, h⟩ := Option.bind_eq_some_iff.1 h
      cases h
      exact neg operand w (ih hw)
    | not => cases h
  | binary op left right ihl ihr =>
    obtain ⟨x, hx, h⟩ := Option.bind_eq_some_iff.1 h
    obtain ⟨y, hy, h⟩ := Option.bind_eq_some_iff.1 h
    exact binary op left right x y v hx hy h (ihl hx) (ihr hy)
  | call function arguments _ => cases h
  | index register place _ => cases h

/-! ## Divisions by zero -/

/-- A part of an expression that is not below a remainder or a power. -/
inductive Exposed : Expression → Expression → Prop where
  | whole (e : Expression) : Exposed e e
  | operand {op : UnaryOperator} {e part : Expression} :
      Exposed e part → Exposed (.unary op e) part
  | left {op : BinaryOperator} {left right part : Expression} : op ≠ .mod → op ≠ .pow →
      Exposed left part → Exposed (.binary op left right) part
  | right {op : BinaryOperator} {left right part : Expression} : op ≠ .mod → op ≠ .pow →
      Exposed right part → Exposed (.binary op left right) part
  | argument {function : String} {arguments : List Expression} {e part : Expression} :
      e ∈ arguments → Exposed e part → Exposed (.call function arguments) part
  | place {register : String} {e part : Expression} :
      Exposed e part → Exposed (.index register e) part

def IsZero (e : Expression) : Prop := ∃ z, e.value? = some z ∧ (z == 0) = true

/-- A division that is not below a remainder or a power has a divisor of value zero. -/
def DividesByZero (e : Expression) : Prop :=
  ∃ left right, Exposed e (.binary .div left right) ∧ right.IsZero

variable {e left right : Expression} {op : BinaryOperator}

theorem not_dividesByZero_literal
    (h : (∃ v, e = int v) ∨ (∃ v, e = float v) ∨ ∃ c, e = constant c) : ¬ e.DividesByZero := by
  rintro ⟨l, r, hpart, -⟩
  rcases h with ⟨v, rfl⟩ | ⟨v, rfl⟩ | ⟨c, rfl⟩ <;> cases hpart

theorem dividesByZero_neg : (unary .neg e).DividesByZero ↔ e.DividesByZero := by
  constructor
  · rintro ⟨l, r, hpart, hzero⟩
    cases hpart with
    | operand hpart => exact ⟨l, r, hpart, hzero⟩
  · rintro ⟨l, r, hpart, hzero⟩
    exact ⟨l, r, .operand hpart, hzero⟩

/-- Apart from remainders and powers, a division by zero stands in an operand or is the operation itself. -/
theorem dividesByZero_binary (hmod : op ≠ .mod) (hpow : op ≠ .pow) :
    (binary op left right).DividesByZero ↔
      (op = .div ∧ right.IsZero) ∨ left.DividesByZero ∨ right.DividesByZero := by
  constructor
  · rintro ⟨l, r, hpart, hzero⟩
    cases hpart with
    | whole => exact Or.inl ⟨rfl, hzero⟩
    | left _ _ hpart => exact Or.inr (Or.inl ⟨l, r, hpart, hzero⟩)
    | right _ _ hpart => exact Or.inr (Or.inr ⟨l, r, hpart, hzero⟩)
  · rintro (⟨rfl, hzero⟩ | ⟨l, r, hpart, hzero⟩ | ⟨l, r, hpart, hzero⟩)
    · exact ⟨left, right, .whole _, hzero⟩
    · exact ⟨l, r, .left hmod hpow hpart, hzero⟩
    · exact ⟨l, r, .right hmod hpow hpart, hzero⟩

theorem not_dividesByZero_of_below (h : op = .mod ∨ op = .pow) :
    ¬ (binary op left right).DividesByZero := by
  rintro ⟨l, r, hpart, -⟩
  cases hpart with
  | whole => simp at h
  | left hmod hpow _ => exact h.elim hmod hpow
  | right hmod hpow _ => exact h.elim hmod hpow

theorem isZero_iff {y : Float} (h : e.value? = some y) : e.IsZero ↔ (y == 0) = true := by
  simp [IsZero, h]

/-! ## Parameters of constants -/

/-- The parameter has no symbols, and the value of the expression unless that divides by zero. -/
structure Agrees (e : Expression) (v : Float) (p : Parameter) : Prop where
  closed : p.isSymbolic = false
  defined : ¬ e.DividesByZero → p.value? = some v
  undefined : e.DividesByZero → p.value? = none

theorem agrees_constant {v : Float} (h : ¬ e.DividesByZero) : e.Agrees v (.constant v) :=
  ⟨rfl, fun _ => rfl, fun hzero => absurd hzero h⟩

theorem Agrees.neg {v : Float} {p : Parameter} (h : e.Agrees v p) :
    (unary .neg e).Agrees (-v) (.neg p) where
  closed := h.closed
  defined hzero := by
    rw [Parameter.value?, h.defined (mt dividesByZero_neg.2 hzero)]
    rfl
  undefined hzero := by
    rw [Parameter.value?, h.undefined (dividesByZero_neg.1 hzero)]
    rfl

end Expression

/-- The four operators that stay in a parameter do what they do on numbers, a division by zero
apart. -/
theorem BinaryOperator.apply_arithmetic {op : BinaryOperator} {arithmetic : Arithmetic}
    (h : op.arithmetic? = some arithmetic) (x y : Float) :
    arithmetic.apply x y = if op = .div ∧ (y == 0) = true then none else op.apply? x y := by
  cases op with
  | div =>
    cases h
    simp [Arithmetic.apply, BinaryOperator.apply?]
  | add | sub | mul =>
    cases h
    simp [Arithmetic.apply, BinaryOperator.apply?]
  | _ => cases h

theorem BinaryOperator.not_below_of_arithmetic {op : BinaryOperator} {arithmetic : Arithmetic}
    (h : op.arithmetic? = some arithmetic) : op ≠ .mod ∧ op ≠ .pow := by
  constructor <;> rintro rfl <;> cases h

/-- The other operators with a value on numbers are the remainder and the power. -/
theorem BinaryOperator.below_of_apply? {op : BinaryOperator} {x y v : Float}
    (h : op.arithmetic? = none) (hv : op.apply? x y = some v) : op = .mod ∨ op = .pow := by
  cases op with
  | mod => exact Or.inl rfl
  | pow => exact Or.inr rfl
  | add | sub | mul | div => cases h
  | _ => cases hv

namespace Expression

variable {left right : Expression} {op : BinaryOperator}

/-- Two operands that agree with their parameters agree under an operator that parameters have. -/
theorem Agrees.binary {arithmetic : Arithmetic} {x y v : Float} {p q : Parameter}
    (hop : op.arithmetic? = some arithmetic) (hy : right.value? = some y)
    (hv : op.apply? x y = some v) (hp : left.Agrees x p) (hq : right.Agrees y q) :
    (binary op left right).Agrees v (.binary arithmetic p q) := by
  obtain ⟨hmod, hpow⟩ := op.not_below_of_arithmetic hop
  have hzero : (Expression.binary op left right).DividesByZero ↔ _ := dividesByZero_binary hmod hpow
  rw [isZero_iff hy] at hzero
  refine ⟨?_, fun hnot => ?_, fun hdivides => ?_⟩
  · rw [Parameter.isSymbolic, hp.closed, hq.closed, Bool.or_self]
  · rw [hzero, not_or, not_or] at hnot
    rw [Parameter.value?, hq.defined hnot.2.2, hp.defined hnot.2.1]
    exact (op.apply_arithmetic hop x y).trans ((if_neg hnot.1).trans hv)
  · -- the divisor is looked at first, and a fault in either operand comes before one of this division
    rw [hzero] at hdivides
    by_cases hright : right.DividesByZero
    · rw [Parameter.value?, hq.undefined hright]
      rfl
    by_cases hleft : left.DividesByZero
    · rw [Parameter.value?, hq.defined hright, hp.undefined hleft]
      rfl
    have hhere : op = .div ∧ (y == 0) = true := by
      simpa [hleft, hright] using hdivides
    rw [Parameter.value?, hq.defined hright, hp.defined hleft]
    exact (op.apply_arithmetic hop x y).trans (if_pos hhere)

/-- A constant stands for a parameter that agrees with it. -/
theorem exists_parameter_agrees {e : Expression} {v : Float} (h : e.value? = some v) :
    ∃ p, e.parameter = .ok p ∧ e.Agrees v p := by
  apply valueInduction (P := fun e v => ∃ p, e.parameter = .ok p ∧ e.Agrees v p) (h := h)
  case int =>
    exact fun v => ⟨_, rfl, agrees_constant (not_dividesByZero_literal (Or.inl ⟨v, rfl⟩))⟩
  case float =>
    exact fun v => ⟨_, rfl, agrees_constant (not_dividesByZero_literal (Or.inr (Or.inl ⟨v, rfl⟩)))⟩
  case constant =>
    intro c
    have hzero : ¬ (constant c).DividesByZero := not_dividesByZero_literal (Or.inr (Or.inr ⟨c, rfl⟩))
    cases c with
    | pi => exact ⟨_, rfl, rfl, fun _ => rfl, fun h => absurd h hzero⟩
    | tau =>
      exact ⟨_, rfl, rfl, fun _ => congrArg some piValue_mul_two, fun h => absurd h hzero⟩
    | euler => exact ⟨_, rfl, agrees_constant hzero⟩
  case neg =>
    rintro e v ⟨p, hp, hagrees⟩
    refine ⟨.neg p, ?_, hagrees.neg⟩
    rw [parameter, hp]
    rfl
  case binary =>
    rintro op left right x y v hx hy hv ⟨p, hp, hleft⟩ ⟨q, hq, hright⟩
    rw [parameter, hp, hq]
    cases hop : op.arithmetic? with
    | some arithmetic => exact ⟨_, rfl, .binary hop hy hv hleft hright⟩
    | none =>
      have hvalue : (binary op left right).value? = some v := by
        rw [value?, hx, hy]
        exact hv
      refine ⟨.constant v, by simp [hvalue], agrees_constant ?_⟩
      exact not_dividesByZero_of_below (op.below_of_apply? hop hv)

/-! ## Symbols of parameters -/

/-- The names in an expression, those in the arguments of functions left out. -/
def identifiers : Expression → List String
  | name n => [n]
  | unary _ operand => operand.identifiers
  | binary _ left right => left.identifiers ++ right.identifiers
  | index _ place => place.identifiers
  | _ => []

theorem identifiers_of_value? {e : Expression} {v : Float} (h : e.value? = some v) :
    e.identifiers = [] := by
  apply valueInduction (P := fun e _ => e.identifiers = []) (h := h)
  case int => exact fun _ => rfl
  case float => exact fun _ => rfl
  case constant => exact fun _ => rfl
  case neg => exact fun _ _ ih => ih
  case binary =>
    intro op left right x y v _ _ _ ihl ihr
    rw [identifiers, ihl, ihr, List.append_nil]

/-- The symbols of a parameter are the names of its expression, in the same order. -/
theorem occurrences_parameter {e : Expression} {p : Parameter} (h : e.parameter = .ok p) :
    p.occurrences = e.identifiers := by
  induction e using Expression.induction generalizing p with
  | int value =>
    cases h
    rfl
  | float value =>
    cases h
    rfl
  | bool value => cases h
  | constant c => cases c <;> cases h <;> rfl
  | name register =>
    cases h
    rfl
  | unary op operand ih =>
    cases op with
    | neg =>
      obtain ⟨q, hq, h⟩ := bind_eq_ok_iff.1 h
      cases h
      rw [Parameter.occurrences, ih hq, identifiers]
    | not => cases h
  | binary op left right ihl ihr =>
    obtain ⟨l, hl, h⟩ := bind_eq_ok_iff.1 h
    obtain ⟨r, hr, h⟩ := bind_eq_ok_iff.1 h
    split at h
    · cases h
      rw [Parameter.occurrences, ihl hl, ihr hr, identifiers]
    · split at h
      · rename_i v hv
        cases h
        rw [identifiers_of_value? hv, Parameter.occurrences]
      · cases h
  | call function arguments _ =>
    cases arguments with
    | nil => cases h
    | cons argument rest =>
      cases rest with
      | nil =>
        rw [parameter] at h
        split at h
        · cases h
          rfl
        · cases h
      | cons _ _ => cases h
  | index register place _ => cases h

end Expression

/-- An expression with a value stands for a parameter without symbols, which has the same value unless
the expression divides by zero, and then has none. Whatever parameter an expression stands for, its
symbols are the names in the expression. -/
theorem constants_agree_with_parameters (e : Expression) :
    (∀ v, e.value? = some v → ∃ p, e.parameter = .ok p ∧ p.symbols = [] ∧
      (¬ e.DividesByZero → p.value? = some v) ∧ (e.DividesByZero → p.value? = none)) ∧
    ∀ p, e.parameter = .ok p → ∀ name, name ∈ p.symbols ↔ name ∈ e.identifiers := by
  constructor
  · intro v hv
    obtain ⟨p, hp, hagrees⟩ := Expression.exists_parameter_agrees hv
    refine ⟨p, hp, ?_, hagrees.defined, hagrees.undefined⟩
    simp [Parameter.symbols, Parameter.isSymbolic_eq_false_iff.1 hagrees.closed]
  · intro p hp name
    rw [Parameter.symbols, List.mem_mergeSort, List.mem_eraseDups, Expression.occurrences_parameter hp]

/-- A quarter turn and the remainder of a division by zero, which is infinite. -/
def turnAndRemainder : Expression :=
  .binary .add (.binary .div (.constant .tau) (.float 4))
    (.binary .mod (.float 7) (.binary .div (.float 1) (.float 0)))

def turnOverZero : Expression :=
  .unary .neg (.binary .div (.constant .pi) (.binary .sub (.float 1) (.float 1)))

def angleLessSine : Expression :=
  .binary .sub (.binary .mul (.float 2) (.name "theta")) (.call "sin" [.float 1])

theorem constants_agree_with_parameters_mixedExpressions :
    (∃ v p, turnAndRemainder.value? = some v ∧ turnAndRemainder.parameter = .ok p ∧ p.symbols = [] ∧
      p.value? = some v) ∧
    (∃ v p, turnOverZero.value? = some v ∧ turnOverZero.parameter = .ok p ∧ p.symbols = [] ∧
      p.value? = none) ∧
    ∃ p, angleLessSine.parameter = .ok p ∧ ∀ name, name ∈ p.symbols ↔ name = "theta" := by
  have hdefined : ¬ turnAndRemainder.DividesByZero := by
    have hfour : ¬ (Expression.float 4).IsZero := by
      rw [Expression.isZero_iff rfl]
      decide +kernel
    rw [turnAndRemainder, Expression.dividesByZero_binary (by decide) (by decide),
      Expression.dividesByZero_binary (by decide) (by decide)]
    simp [hfour, Expression.not_dividesByZero_literal, Expression.not_dividesByZero_of_below]
  have hundefined : turnOverZero.DividesByZero := by
    refine ⟨_, _, .operand (.whole _), ?_⟩
    rw [Expression.isZero_iff rfl]
    decide +kernel
  refine ⟨?_, ?_, ?_⟩
  · obtain ⟨p, hp, hnone, hvalue, -⟩ := (constants_agree_with_parameters turnAndRemainder).1 _ rfl
    exact ⟨_, p, rfl, hp, hnone, hvalue hdefined⟩
  · obtain ⟨p, hp, hnone, -, hvalue⟩ := (constants_agree_with_parameters turnOverZero).1 _ rfl
    exact ⟨_, p, rfl, hp, hnone, hvalue hundefined⟩
  · refine ⟨_, rfl, fun name => ?_⟩
    rw [(constants_agree_with_parameters angleLessSine).2 _ rfl]
    simp [angleLessSine, Expression.identifiers]

end CircuitCalls.Qasm
