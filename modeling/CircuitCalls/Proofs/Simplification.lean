import CircuitCalls.Parameter.Text

/-!
# Folding constants

A parameter without symbols is folded as a whole, one with symbols part by part. `foldingInduction`
is induction along this split, and each law of simplification is proved by it: whatever is put in
place of the symbols the value is the same, no symbol is lost, nothing is left to fold, and symbols
may be renamed before or after.
-/

namespace CircuitCalls.Parameter

/-- Induction over parameters in which those without symbols are not taken apart. -/
theorem foldingInduction {P : Parameter → Prop}
    (closed : ∀ p, p.isSymbolic = false → P p)
    (symbol : ∀ name, P (.symbol name))
    (neg : ∀ e, e.isSymbolic = true → P e → P (.neg e))
    (binary : ∀ op a b, (a.isSymbolic || b.isSymbolic) = true → P a → P b → P (.binary op a b))
    (p : Parameter) : P p := by
  induction p with
  | constant v => exact closed _ rfl
  | symbol name => exact symbol name
  | pi => exact closed _ rfl
  | neg e ih =>
    cases he : e.isSymbolic with
    | false => exact closed _ he
    | true => exact neg e he ih
  | binary op a b iha ihb =>
    cases hab : a.isSymbolic || b.isSymbolic with
    | false => exact closed _ hab
    | true => exact binary op a b hab iha ihb

variable {p : Parameter}

/-- Without symbols a parameter becomes its value, unless it has none or is π by itself. -/
theorem simplify_of_closed (h : p.isSymbolic = false) :
    (p.simplify = p ∧ (p = pi ∨ p.value? = none)) ∨
      ∃ v, p.value? = some v ∧ p.simplify = constant v := by
  have folded : p.simplify = p.fold →
      (p.simplify = p ∧ (p = pi ∨ p.value? = none)) ∨
        ∃ v, p.value? = some v ∧ p.simplify = constant v := by
    intro hfold
    rw [hfold, fold]
    cases hv : p.value? with
    | none => exact Or.inl ⟨rfl, Or.inr rfl⟩
    | some v => exact Or.inr ⟨v, rfl, rfl⟩
  cases p with
  | constant v => exact Or.inr ⟨v, rfl, rfl⟩
  | symbol name => cases h
  | pi => exact Or.inl ⟨rfl, Or.inl rfl⟩
  | neg e => exact folded (if_neg (ne_true_of_eq_false h))
  | binary op a b => exact folded (if_neg (ne_true_of_eq_false h))

theorem simplify_neg {e : Parameter} (h : e.isSymbolic = true) :
    (neg e).simplify = neg e.simplify := if_pos h

theorem simplify_binary {op : Arithmetic} {a b : Parameter}
    (h : (a.isSymbolic || b.isSymbolic) = true) :
    (binary op a b).simplify = binary op a.simplify b.simplify := if_pos h

/-! ## Symbols -/

theorem isSymbolic_eq_false_iff : p.isSymbolic = false ↔ p.occurrences = [] := by
  induction p with
  | constant v => simp [isSymbolic, occurrences]
  | symbol name => simp [isSymbolic, occurrences]
  | pi => simp [isSymbolic, occurrences]
  | neg e ih => exact ih
  | binary op a b iha ihb =>
    rw [isSymbolic, Bool.or_eq_false_iff, iha, ihb, occurrences, List.append_eq_nil_iff]

/-- Every symbol stays where it was. -/
theorem occurrences_simplify (p : Parameter) : p.simplify.occurrences = p.occurrences := by
  induction p using foldingInduction with
  | closed p h =>
    rcases simplify_of_closed h with ⟨heq, -⟩ | ⟨v, -, heq⟩
    · rw [heq]
    · rw [heq, isSymbolic_eq_false_iff.1 h, occurrences]
  | symbol name => rfl
  | neg e h ih => rw [simplify_neg h, occurrences, ih, occurrences]
  | binary op a b h iha ihb => rw [simplify_binary h, occurrences, iha, ihb, occurrences]

theorem isSymbolic_simplify (p : Parameter) : p.simplify.isSymbolic = p.isSymbolic := by
  have h : p.simplify.isSymbolic = false ↔ p.isSymbolic = false := by
    rw [isSymbolic_eq_false_iff, isSymbolic_eq_false_iff, occurrences_simplify]
  cases hp : p.isSymbolic with
  | false => exact h.2 hp
  | true =>
    rw [← Bool.not_eq_false, h, hp]
    exact Bool.noConfusion

theorem isSymbolic_rename (f : String → String) (p : Parameter) :
    (p.rename f).isSymbolic = p.isSymbolic := by
  induction p with
  | constant v => rfl
  | symbol name => rfl
  | pi => rfl
  | neg e ih => exact ih
  | binary op a b iha ihb => rw [rename, isSymbolic, iha, ihb, isSymbolic]

/-! ## What stands in place of the symbols -/

/-- Puts a parameter in place of every symbol. -/
def substitute (σ : String → Parameter) : Parameter → Parameter
  | constant v => constant v
  | symbol name => σ name
  | pi => pi
  | neg e => neg (e.substitute σ)
  | binary op a b => binary op (a.substitute σ) (b.substitute σ)

def bindAll (bindings : List (String × Float)) (p : Parameter) : Parameter :=
  bindings.foldl (fun p binding => p.bind binding.1 binding.2) p

theorem substitute_of_closed (h : p.isSymbolic = false) (σ : String → Parameter) :
    p.substitute σ = p := by
  induction p with
  | constant v => rfl
  | symbol name => cases h
  | pi => rfl
  | neg e ih => rw [substitute, ih h]
  | binary op a b iha ihb =>
    obtain ⟨ha, hb⟩ := Bool.or_eq_false_iff.1 h
    rw [substitute, iha ha, ihb hb]

theorem substitute_substitute (σ τ : String → Parameter) (p : Parameter) :
    (p.substitute σ).substitute τ = p.substitute fun name => (σ name).substitute τ := by
  induction p with
  | constant v => rfl
  | symbol name => rfl
  | pi => rfl
  | neg e ih => rw [substitute, substitute, ih, substitute]
  | binary op a b iha ihb => rw [substitute, substitute, iha, ihb, substitute]

theorem substitute_symbol (p : Parameter) : p.substitute symbol = p := by
  induction p with
  | constant v => rfl
  | symbol name => rfl
  | pi => rfl
  | neg e ih => rw [substitute, ih]
  | binary op a b iha ihb => rw [substitute, iha, ihb]

theorem rename_eq_substitute (f : String → String) (p : Parameter) :
    p.rename f = p.substitute fun name => symbol (f name) := by
  induction p with
  | constant v => rfl
  | symbol name => rfl
  | pi => rfl
  | neg e ih => rw [rename, ih, substitute]
  | binary op a b iha ihb => rw [rename, iha, ihb, substitute]

theorem bind_eq_substitute (name : String) (value : Float) (p : Parameter) :
    p.bind name value = p.substitute fun n => (symbol n).bind name value := by
  induction p with
  | constant v => rfl
  | symbol n => rfl
  | pi => rfl
  | neg e ih => rw [bind, ih, substitute]
  | binary op a b iha ihb => rw [bind, iha, ihb, substitute]

theorem bindAll_eq_substitute (bindings : List (String × Float)) (p : Parameter) :
    p.bindAll bindings = p.substitute fun name => (symbol name).bindAll bindings := by
  induction bindings generalizing p with
  | nil => exact (substitute_symbol p).symm
  | cons binding rest ih =>
    calc (p.bind binding.1 binding.2).bindAll rest
      _ = (p.substitute fun n => (symbol n).bind binding.1 binding.2).substitute
            fun name => (symbol name).bindAll rest := by rw [ih, bind_eq_substitute]
      _ = p.substitute fun n => ((symbol n).bind binding.1 binding.2).substitute
            fun name => (symbol name).bindAll rest := substitute_substitute _ _ p
      _ = p.substitute fun n => ((symbol n).bind binding.1 binding.2).bindAll rest :=
            congrArg (p.substitute ·) (funext fun n => (ih _).symm)

/-- Folding before symbols are replaced does not change the value afterwards. -/
theorem value?_substitute_simplify (σ : String → Parameter) (p : Parameter) :
    (p.simplify.substitute σ).value? = (p.substitute σ).value? := by
  induction p using foldingInduction with
  | closed p h =>
    rcases simplify_of_closed h with ⟨heq, -⟩ | ⟨v, hv, heq⟩
    · rw [heq]
    · rw [heq, substitute_of_closed h, hv, substitute, value?]
  | symbol name => rfl
  | neg e h ih => rw [simplify_neg h, substitute, value?, ih, substitute, value?]
  | binary op a b h iha ihb =>
    rw [simplify_binary h, substitute, value?, iha, ihb, substitute, value?]

theorem value?_simplify (p : Parameter) : p.simplify.value? = p.value? := by
  have h := value?_substitute_simplify symbol p
  rwa [substitute_symbol, substitute_symbol] at h

/-! ## Folded parameters -/

/-- Nothing is left to fold: a part without symbols is a number, is π by itself or has no value. -/
inductive Folded : Parameter → Prop where
  | constant (v : Float) : Folded (constant v)
  | symbol (name : String) : Folded (symbol name)
  | pi : Folded pi
  | undefined {p : Parameter} : p.isSymbolic = false → p.value? = none → Folded p
  | neg {e : Parameter} : e.isSymbolic = true → Folded e → Folded (neg e)
  | binary {op : Arithmetic} {a b : Parameter} : (a.isSymbolic || b.isSymbolic) = true →
      Folded a → Folded b → Folded (binary op a b)

/-- Nothing is left to fold after one pass. -/
theorem folded_simplify (p : Parameter) : p.simplify.Folded := by
  induction p using foldingInduction with
  | closed p h =>
    rcases simplify_of_closed h with ⟨heq, rfl | hnone⟩ | ⟨v, -, heq⟩
    · exact .pi
    · rw [heq]
      exact .undefined h hnone
    · rw [heq]
      exact .constant v
  | symbol name => exact .symbol name
  | neg e h ih =>
    rw [simplify_neg h]
    exact .neg (by rw [isSymbolic_simplify, h]) ih
  | binary op a b h iha ihb =>
    rw [simplify_binary h]
    exact .binary (by rw [isSymbolic_simplify, isSymbolic_simplify, h]) iha ihb

theorem Folded.simplify_eq (h : p.Folded) : p.simplify = p := by
  induction h with
  | constant v => rfl
  | symbol name => rfl
  | pi => rfl
  | undefined hclosed hnone =>
    rcases simplify_of_closed hclosed with ⟨heq, -⟩ | ⟨v, hv, -⟩
    · exact heq
    · rw [hnone] at hv
      cases hv
  | neg hsymbolic _ ih => rw [simplify_neg hsymbolic, ih]
  | binary hsymbolic _ _ iha ihb => rw [simplify_binary hsymbolic, iha, ihb]

/-- Renaming neither makes nor hides anything to fold. -/
theorem simplify_rename (f : String → String) (p : Parameter) :
    (p.rename f).simplify = p.simplify.rename f := by
  induction p using foldingInduction with
  | closed p h =>
    have hsimplify : p.simplify.isSymbolic = false := (isSymbolic_simplify p).trans h
    rw [rename_eq_substitute, substitute_of_closed h, rename_eq_substitute,
      substitute_of_closed hsimplify]
  | symbol name => rfl
  | neg e h ih =>
    rw [simplify_neg h, rename, simplify_neg ((isSymbolic_rename f e).trans h), ih, rename]
  | binary op a b h iha ihb =>
    have hrename : ((a.rename f).isSymbolic || (b.rename f).isSymbolic) = true := by
      rw [isSymbolic_rename, isSymbolic_rename, h]
    rw [simplify_binary h, rename, simplify_binary hrename, iha, ihb, rename]

theorem argument_simplify (p : Parameter) : p.simplify.argument = p.argument := by
  rw [argument, argument, value?_simplify, (folded_simplify p).simplify_eq]

/-- Simplification keeps the value under all bindings and keeps every symbol, leaves nothing to fold
and so changes nothing a second time, and may be exchanged with renaming, also in the argument that is
written in the end. -/
theorem simplification_is_sound (p : Parameter) :
    (∀ bindings : List (String × Float),
      (p.simplify.bindAll bindings).value? = (p.bindAll bindings).value?) ∧
    p.simplify.symbols = p.symbols ∧
    p.simplify.Folded ∧
    p.simplify.simplify = p.simplify ∧
    ∀ f : String → String,
      (p.rename f).simplify = p.simplify.rename f ∧
      (p.simplify.rename f).argument = (p.rename f).argument := by
  refine ⟨fun bindings => ?_, ?_, folded_simplify p, (folded_simplify p).simplify_eq,
    fun f => ⟨simplify_rename f p, ?_⟩⟩
  · rw [bindAll_eq_substitute, bindAll_eq_substitute, value?_substitute_simplify]
  · rw [symbols, occurrences_simplify, symbols]
  · rw [← simplify_rename, argument_simplify]

example : (binary .mul (symbol "i") (binary .add (constant 2) (constant 3))).simplify =
    binary .mul (symbol "i") (constant 5) := by decide +kernel

end CircuitCalls.Parameter
